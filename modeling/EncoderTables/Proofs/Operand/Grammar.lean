import EncoderTables.Proofs.Operand.Specification
import EncoderTables.Proofs.Text.Reading
import EncoderTables.Proofs.Text.Trimming

/-!
# The grammar of specifications

What is written between two semicolons is blank, or it is a name, a colon and access modes with
blanks around each of them. Access modes are letters, none of them twice, and a range of bits in
brackets may follow each. A specification is read exactly when it is written in this way, and what
is read is what was written, however many blanks and blank segments there are. Everything else is
refused as malformed.
-/

namespace EncoderTables.Operand

open Results

/-- A row of digits, of any scripts, that denotes a number. -/
structure IsNumeral (digits : List Char) (value : Nat) : Prop where
  filled : digits ≠ []
  each : ∀ c ∈ digits, Text.isDigit c = true
  denotes : Text.numeralValue digits = value

/-- How a range of bits is written. -/
def SpellsRange (range : BitRange) (text : List Char) : Prop :=
  ∃ low high, IsNumeral low range.low ∧ IsNumeral high range.high ∧
    text = '[' :: (low ++ '.' :: '.' :: (high ++ [']']))

/-- How access modes are written with the ranges that restrict some of them. -/
inductive SpellsModes : List Access → List (Access × BitRange) → List Char → Prop where
  | none : SpellsModes [] [] []
  | whole (mode : Access) {modes : List Access} {ranges : List (Access × BitRange)}
    {text : List Char} (rest : SpellsModes modes ranges text) :
    SpellsModes (mode :: modes) ranges (mode.letter :: text)
  | ranged (mode : Access) {range : BitRange} {shown : List Char} {modes : List Access}
    {ranges : List (Access × BitRange)} {text : List Char} (spelled : SpellsRange range shown)
    (ordered : range.low ≤ range.high) (rest : SpellsModes modes ranges text) :
    SpellsModes (mode :: modes) ((mode, range) :: ranges) (mode.letter :: (shown ++ text))

/-- The letter of an access mode shows the mode. -/
theorem ofLetter?_letter (mode : Access) : Access.ofLetter? mode.letter = some mode := by
  cases mode <;> rfl

/-- An access mode is found by its letter. -/
theorem letter_of_ofLetter? {c : Char} {mode : Access} (found : Access.ofLetter? c = some mode) :
    mode.letter = c := by
  simpa using List.find?_some found

/-- The leading digits of a text end at a character that is none. -/
theorem leadingDigits_append {digits : List Char} (each : ∀ c ∈ digits, Text.isDigit c = true)
    {c : Char} (stop : Text.isDigit c = false) (rest : List Char) :
    (digits ++ c :: rest).takeWhile Text.isDigit = digits ∧
      (digits ++ c :: rest).dropWhile Text.isDigit = c :: rest := by
  rw [List.takeWhile_append_of_pos each, List.dropWhile_append_of_pos each]
  simp [stop]

/-- A range is read as it is written, and what follows is left. -/
theorem bitRange?_eq_some_iff {text rest : List Char} {range : BitRange} :
    bitRange? text = some (range, rest) ↔ ∃ shown, SpellsRange range shown ∧ text = shown ++ rest := by
  constructor
  · intro found
    unfold bitRange? at found
    split at found
    · next behind =>
      have whole := List.takeWhile_append_dropWhile (p := Text.isDigit) (l := behind)
      split at found
      · next afterLow lowEnd =>
        have wholeToo := List.takeWhile_append_dropWhile (p := Text.isDigit) (l := afterLow)
        split at found
        · next afterHigh highEnd =>
          dsimp only at found
          split at found
          · cases found
          · next filled =>
            rw [Bool.or_eq_true, not_or, List.isEmpty_iff, List.isEmpty_iff] at filled
            cases found
            refine ⟨_, ⟨_, _, ⟨filled.1, fun c => List.mem_takeWhile_imp, rfl⟩,
              ⟨filled.2, fun c => List.mem_takeWhile_imp, rfl⟩, rfl⟩, ?_⟩
            rw [highEnd] at wholeToo
            rw [lowEnd, ← wholeToo] at whole
            exact (congrArg ('[' :: ·) whole.symm).trans (by simp)
        · cases found
      · cases found
    · cases found
  · rintro ⟨_, ⟨low, high, first, last, rfl⟩, rfl⟩
    obtain ⟨lowTaken, lowEnd⟩ := leadingDigits_append first.each (c := '.') (by decide)
      ('.' :: (high ++ ']' :: rest))
    obtain ⟨highTaken, highEnd⟩ := leadingDigits_append last.each (c := ']') (by decide) rest
    have filled : (low.isEmpty || high.isEmpty) = false := by
      simp [first.filled, last.filled]
    simp [bitRange?, lowTaken, lowEnd, highTaken, highEnd, filled, first.denotes, last.denotes]

/-- No range starts without a bracket. -/
theorem bitRange?_eq_none {text : List Char} (noBracket : '[' ∉ text.head?) :
    bitRange? text = none := by
  unfold bitRange?
  split
  · exact absurd rfl noBracket
  · rfl

/-- Access modes do not start with a bracket. -/
theorem SpellsModes.head {modes : List Access} {ranges : List (Access × BitRange)}
    {text : List Char} (spelled : SpellsModes modes ranges text) : '[' ∉ text.head? := by
  cases spelled with
  | none => simp
  | whole mode rest => cases mode <;> simp [Access.letter]
  | ranged mode spelled ordered rest => cases mode <;> simp [Access.letter]

/-- Access modes are distinct and new behind others just if the first one is new, and the rest are
distinct and new behind the others and it. -/
theorem areNew_cons_iff {flags modes : List Access} {mode : Access} :
    ((mode :: modes).Nodup ∧ ∀ other ∈ mode :: modes, other ∉ flags) ↔
      mode ∉ flags ∧ modes.Nodup ∧ ∀ other ∈ modes, other ∉ flags ++ [mode] := by
  simp only [List.nodup_cons, List.forall_mem_cons, List.mem_append, List.mem_singleton, not_or]
  constructor
  · rintro ⟨⟨own, distinct⟩, new, apart⟩
    exact ⟨new, distinct, fun other member =>
      ⟨apart other member, fun same => own (same ▸ member)⟩⟩
  · rintro ⟨new, distinct, apart⟩
    exact ⟨⟨fun member => (apart mode member).2 rfl, distinct⟩, new,
      fun other member => (apart other member).1⟩

/-- Access modes that are read behind others are written there, each for the first time. -/
theorem exists_spellsModes {segment : String} {flags found : List Access}
    {ranges restricted : List (Access × BitRange)} {text : List Char}
    (read : readAccess segment flags ranges text = .ok (found, restricted)) :
    ∃ modes added, found = flags ++ modes ∧ restricted = ranges ++ added ∧
      SpellsModes modes added text ∧ modes.Nodup ∧ ∀ mode ∈ modes, mode ∉ flags := by
  fun_induction readAccess segment flags ranges text with
  | case1 flags ranges =>
    cases read
    exact ⟨[], [], by simp, by simp, .none, List.nodup_nil, List.forall_mem_nil _⟩
  | case2 => cases read
  | case3 => cases read
  | case4 flags ranges c text mode letter new noRange inductionHypothesis =>
    obtain ⟨modes, added, rfl, rfl, spelled, areNew⟩ := inductionHypothesis read
    exact ⟨mode :: modes, added, by simp, rfl, letter_of_ofLetter? letter ▸ .whole mode spelled,
      areNew_cons_iff.mpr ⟨by simpa using new, areNew⟩⟩
  | case5 => cases read
  | case6 flags ranges c text mode letter new range rest inside low inductionHypothesis =>
    obtain ⟨modes, added, rfl, rfl, spelled, areNew⟩ := inductionHypothesis read
    obtain ⟨shown, isRange, rfl⟩ := bitRange?_eq_some_iff.mp inside
    exact ⟨mode :: modes, (mode, range) :: added, by simp, by simp,
      letter_of_ofLetter? letter ▸ .ranged mode isRange (Nat.le_of_not_gt low) spelled,
      areNew_cons_iff.mpr ⟨by simpa using new, areNew⟩⟩

/-- Access modes that are written behind others, each for the first time, are read. -/
theorem SpellsModes.readAccess_eq (segment : String) {flags modes : List Access}
    {ranges added : List (Access × BitRange)} {text : List Char}
    (spelled : SpellsModes modes added text)
    (areNew : modes.Nodup ∧ ∀ mode ∈ modes, mode ∉ flags) :
    readAccess segment flags ranges text = .ok (flags ++ modes, ranges ++ added) := by
  induction spelled generalizing flags ranges with
  | none => simp [readAccess]
  | @whole mode modes added text rest inductionHypothesis =>
    obtain ⟨new, areNewToo⟩ := areNew_cons_iff.mp areNew
    have later := @inductionHypothesis (flags ++ [mode]) ranges areNewToo
    rw [List.append_assoc, List.singleton_append] at later
    rw [readAccess, ofLetter?_letter]
    simp only [List.contains_eq_mem, new, decide_false, Bool.false_eq_true, if_false]
    split
    · exact later
    · next found =>
      rw [bitRange?_eq_none rest.head] at found
      cases found
  | @ranged mode range shown modes added text isRange ordered rest inductionHypothesis =>
    obtain ⟨new, areNewToo⟩ := areNew_cons_iff.mp areNew
    have later := @inductionHypothesis (flags ++ [mode]) (ranges ++ [(mode, range)]) areNewToo
    rw [List.append_assoc, List.append_assoc, List.singleton_append,
      List.singleton_append] at later
    have inside : bitRange? (shown ++ text) = some (range, text) :=
      bitRange?_eq_some_iff.mpr ⟨shown, isRange, rfl⟩
    rw [readAccess, ofLetter?_letter]
    simp only [List.contains_eq_mem, new, decide_false, Bool.false_eq_true, if_false]
    split
    · next found =>
      rw [inside] at found
      cases found
    · next found =>
      rw [inside] at found
      cases found
      rw [if_neg (Nat.not_lt.mpr ordered)]
      exact later

/-- Access modes are read behind others just as they are written, each for the first time. -/
theorem readAccess_ok_iff {segment : String} {flags found : List Access}
    {ranges restricted : List (Access × BitRange)} {text : List Char} :
    readAccess segment flags ranges text = .ok (found, restricted) ↔
      ∃ modes added, found = flags ++ modes ∧ restricted = ranges ++ added ∧
        SpellsModes modes added text ∧ modes.Nodup ∧ ∀ mode ∈ modes, mode ∉ flags := by
  constructor
  · exact exists_spellsModes
  · rintro ⟨modes, added, rfl, rfl, spelled, areNew⟩
    exact spelled.readAccess_eq segment areNew

/-- The letters of access modes are not blank. -/
theorem letter_visible (mode : Access) : Text.isBlank mode.letter = false := by
  cases mode <;> decide

/-- Access modes are written without blanks at their ends. -/
theorem SpellsModes.trimmed {modes : List Access} {ranges : List (Access × BitRange)}
    {text : List Char} (spelled : SpellsModes modes ranges text) : Text.IsTrimmed text where
  start := by
    cases spelled with
    | none => simp
    | whole mode rest => simpa using letter_visible mode
    | ranged mode isRange ordered rest => simpa using letter_visible mode
  stop := by
    induction spelled with
    | none => simp
    | @whole mode modes ranges text rest inductionHypothesis =>
      rw [List.getLast?_cons]
      cases last : text.getLast? with
      | none => simpa using letter_visible mode
      | some c => simpa [last] using inductionHypothesis
    | @ranged mode range shown modes ranges text isRange ordered rest inductionHypothesis =>
      obtain ⟨low, high, -, -, rfl⟩ := isRange
      have bracket : Text.isBlank ']' = false := by decide
      cases last : text.getLast? with
      | none => simpa [List.getLast?_cons, last] using bracket
      | some c => simpa [List.getLast?_cons, last] using inductionHypothesis

/-- The name of an operand: it is not empty, has no blanks at its ends and no colon. -/
structure IsName (name : List Char) : Prop where
  filled : name ≠ []
  trimmed : Text.IsTrimmed name
  whole : ':' ∉ name

instance (name : List Char) : Decidable (IsName name) :=
  decidable_of_iff (name ≠ [] ∧ Text.IsTrimmed name ∧ ':' ∉ name)
    ⟨fun parts => ⟨parts.1, parts.2.1, parts.2.2⟩,
      fun named => ⟨named.filled, named.trimmed, named.whole⟩⟩

/-- How an operand is written: its name, a colon and its access modes, each of them once, with
blanks around the name and around the access modes. -/
def SpellsEntry (entry : Entry) (part : List Char) : Prop :=
  entry.status = none ∧ entry.flags.Nodup ∧ IsName entry.name.toList ∧
    ∃ modes, SpellsModes entry.flags entry.ranges modes ∧ ∃ outer inner lead trail,
      Text.AreBlank outer ∧ Text.AreBlank inner ∧ Text.AreBlank lead ∧ Text.AreBlank trail ∧
        part = outer ++ entry.name.toList ++ inner ++ ':' :: (lead ++ modes ++ trail)

/-- How operands are written one after the other, with blank parts anywhere between them. -/
inductive Spells : List Entry → List (List Char) → Prop where
  | none : Spells [] []
  | skip {entries : List Entry} {part : List Char} {parts : List (List Char)}
    (blank : Text.AreBlank part) (rest : Spells entries parts) : Spells entries (part :: parts)
  | entry {entry : Entry} {entries : List Entry} {part : List Char} {parts : List (List Char)}
    (own : SpellsEntry entry part) (rest : Spells entries parts) :
    Spells (entry :: entries) (part :: parts)

/-- What can stand between semicolons: without the blanks around it, it is empty or has a name
before its first colon, and distinct access modes with ordered ranges behind it. -/
def IsSegment (part : List Char) : Prop :=
  Text.trim part = [] ∨ ∃ name flags, Text.trim part = name ++ ':' :: flags ∧ ':' ∉ name ∧
    Text.trim name ≠ [] ∧
      ∃ modes ranges, modes.Nodup ∧ SpellsModes modes ranges (Text.trim flags)

/-- The causes for which a specification is refused as malformed. -/
def IsMalformed : Cause → Prop
  | .invalidAccessFlag .. | .repeatedAccessFlag .. | .invalidBitRange .. | .missingSeparator _
  | .missingOperandName _ => True
  | _ => False

/-- What a segment is read as. -/
theorem parseSegment_ok_iff {segment : List Char} {entry : Entry} :
    parseSegment segment = .ok entry ↔ ∃ name flags, segment = name ++ ':' :: flags ∧ ':' ∉ name ∧
      Text.trim name ≠ [] ∧ entry.name = String.ofList (Text.trim name) ∧ entry.status = none ∧
        entry.flags.Nodup ∧ SpellsModes entry.flags entry.ranges (Text.trim flags) := by
  constructor
  · intro read
    unfold parseSegment at read
    dsimp only at read
    split at read
    · cases read
    · next colon flags rest =>
      split at read
      · cases read
      · next named =>
        simp only [bind_ok_iff, pure_ok_iff] at read
        obtain ⟨⟨modes, ranges⟩, found, rfl⟩ := read
        obtain ⟨_, _, rfl, rfl, spelled, distinct, -⟩ := readAccess_ok_iff.mp found
        have separator : colon = ':' := by
          have first := List.head?_dropWhile_not (· != ':') segment
          simpa [rest] using first
        refine ⟨segment.takeWhile (· != ':'), flags, ?_, ?_, by simpa using named, rfl, rfl,
          by simpa using distinct, by simpa using spelled⟩
        · rw [separator] at rest
          rw [← rest, List.takeWhile_append_dropWhile]
        · exact fun member => absurd (List.mem_takeWhile_imp member) (by decide)
  · rintro ⟨name, flags, rfl, whole, filled, named, bare, distinct, spelled⟩
    have before : ∀ c ∈ name, (c != ':') = true := fun c member =>
      bne_iff_ne.mpr fun same => whole (same ▸ member)
    have taken : (name ++ ':' :: flags).takeWhile (· != ':') = name := by
      rw [List.takeWhile_append_of_pos before]
      simp
    have dropped : (name ++ ':' :: flags).dropWhile (· != ':') = ':' :: flags := by
      rw [List.dropWhile_append_of_pos before]
      simp
    have read : readAccess (String.ofList (name ++ ':' :: flags)) [] [] (Text.trim flags) =
        .ok (entry.flags, entry.ranges) :=
      readAccess_ok_iff.mpr ⟨_, _, rfl, rfl, spelled, distinct, by simp⟩
    have nonempty : (Text.trim name).isEmpty = false := by simpa using filled
    rw [parseSegment]
    simp only [taken, dropped, nonempty, read]
    cases entry
    cases named
    cases bare
    rfl

/-- A part between semicolons is read, without the blanks around it, as the operand that is
written there. -/
theorem parseSegment_trim_ok_iff {part : List Char} {entry : Entry} :
    parseSegment (Text.trim part) = .ok entry ↔ SpellsEntry entry part := by
  obtain ⟨start, stop, outside, first, last⟩ := exists_trim part
  rw [parseSegment_ok_iff]
  constructor
  · rintro ⟨name, flags, inside, whole, filled, named, bare, distinct, spelled⟩
    obtain ⟨outer, inner, around, blankOuter, blankInner⟩ := exists_trim name
    obtain ⟨lead, trail, within, blankLead, blankTrail⟩ := exists_trim flags
    have letters : entry.name.toList = Text.trim name := by rw [named, String.toList_ofList]
    refine ⟨bare, distinct, ⟨letters ▸ filled, letters ▸ Text.isTrimmed_trim name, ?_⟩, _, spelled,
      start ++ outer, inner, lead, trail ++ stop, Text.AreBlank.append first blankOuter,
      blankInner, blankLead, Text.AreBlank.append blankTrail last, ?_⟩
    · rw [letters]
      refine fun member => whole ?_
      rw [around]
      exact List.mem_append_left _ (List.mem_append_right _ member)
    · rw [inside] at outside
      rw [outside, letters]
      conv_lhs => rw [around, within]
      simp only [List.append_assoc, List.cons_append]
  · rintro ⟨bare, distinct, named, modes, spelled, outer, inner, lead, trail, blankOuter,
      blankInner, blankLead, blankTrail, written⟩
    have early : ':' ∉ outer ++ entry.name.toList ++ inner := by
      simp only [List.mem_append, not_or]
      exact ⟨⟨no_colon_of_blank blankOuter, named.whole⟩, no_colon_of_blank blankInner⟩
    -- The first colon of the part is that of the text without the blanks around it.
    have colon : ':' ∈ Text.trim part := by
      have member : ':' ∈ part := written ▸ List.mem_append_right _ List.mem_cons_self
      rw [outside] at member
      simp only [List.mem_append] at member
      rcases member with (early | inside) | late
      · exact absurd early (no_colon_of_blank first)
      · exact inside
      · exact absurd late (no_colon_of_blank last)
    obtain ⟨name, flags, inside, whole⟩ := List.eq_append_cons_of_mem colon
    have same : (start ++ name) ++ ':' :: (flags ++ stop) =
        (outer ++ entry.name.toList ++ inner) ++ ':' :: (lead ++ modes ++ trail) := by
      rw [← written, outside, inside]
      simp only [List.append_assoc, List.cons_append]
    have front : ':' ∉ start ++ name := by
      simpa [List.mem_append] using ⟨no_colon_of_blank first, whole⟩
    obtain ⟨names, rests⟩ := Text.eq_of_separated front early same
    have own : Text.trim name = entry.name.toList := by
      rw [← Text.trim_append_left first, names, Text.trim_append_right blankInner,
        Text.trim_append_left blankOuter, named.trimmed.trim_eq]
    have behind : Text.trim flags = modes := by
      rw [← Text.trim_append_right last, rests, Text.trim_append_right blankTrail,
        Text.trim_append_left blankLead, spelled.trimmed.trim_eq]
    exact ⟨name, flags, inside, whole, own ▸ named.filled, by rw [own, String.ofList_toList], bare,
      distinct, behind ▸ spelled⟩

/-- A part is not blank exactly when something is left of it. -/
theorem not_blank_of_spells {entry : Entry} {part : List Char} (spelled : SpellsEntry entry part) :
    Text.trim part ≠ [] := by
  have read := parseSegment_trim_ok_iff.mpr spelled
  obtain ⟨name, flags, inside, -⟩ := parseSegment_ok_iff.mp read
  rw [inside]
  simp

/-- The parts between semicolons are read one after the other, as the operands that are written
there. -/
theorem parseSegments_ok_iff {parts : List (List Char)} {entries : List Entry} :
    ((parts.map Text.trim).filter (!·.isEmpty)).mapM parseSegment = .ok entries ↔
      Spells entries parts := by
  induction parts generalizing entries with
  | nil =>
    rw [List.map_nil, List.filter_nil, List.mapM_nil, pure_ok_iff]
    constructor
    · rintro rfl
      exact .none
    · intro spelled
      cases spelled
      rfl
  | cons part parts inductionHypothesis =>
    rw [List.map_cons]
    by_cases empty : Text.trim part = []
    · rw [List.filter_cons_of_neg (by simp [empty]), inductionHypothesis]
      constructor
      · exact fun rest => .skip (Text.trim_eq_nil_iff.mp empty) rest
      · intro spelled
        cases spelled with
        | skip blank rest => exact rest
        | entry own rest => exact absurd empty (not_blank_of_spells own)
    · rw [List.filter_cons_of_pos (by simpa using empty), List.mapM_cons]
      simp only [bind_ok_iff, pure_ok_iff, parseSegment_trim_ok_iff, inductionHypothesis]
      constructor
      · rintro ⟨entry, own, others, rest, rfl⟩
        exact .entry own rest
      · intro spelled
        cases spelled with
        | skip blank rest => exact absurd (Text.trim_eq_nil_iff.mpr blank) empty
        | entry own rest => exact ⟨_, own, _, rest, rfl⟩

/-- A specification is read exactly as the operands that are written in it. -/
theorem parseEntries_ok_iff {specification : String} {instruction : Option String}
    {entries : List Entry} :
    parseEntries specification instruction = .ok entries ↔
      Spells entries (Text.cutAt ';' specification.toList) := by
  rw [parseEntries, mapError_ok_iff, segments, parseSegments_ok_iff]

/-- A part can stand between semicolons exactly when it is blank or an operand is written there. -/
theorem isSegment_iff {part : List Char} :
    IsSegment part ↔ Text.AreBlank part ∨ ∃ entry, SpellsEntry entry part := by
  rw [IsSegment, Text.trim_eq_nil_iff]
  refine or_congr_right ?_
  constructor
  · rintro ⟨name, flags, inside, whole, filled, modes, ranges, distinct, spelled⟩
    refine ⟨⟨String.ofList (Text.trim name), modes, ranges, none⟩, ?_⟩
    exact parseSegment_trim_ok_iff.mp (parseSegment_ok_iff.mpr
      ⟨name, flags, inside, whole, filled, rfl, rfl, distinct, spelled⟩)
  · rintro ⟨entry, spelled⟩
    obtain ⟨name, flags, inside, whole, filled, -, -, distinct, modes⟩ :=
      parseSegment_ok_iff.mp (parseSegment_trim_ok_iff.mpr spelled)
    exact ⟨name, flags, inside, whole, filled, _, _, distinct, modes⟩

/-- Operands are written in parts that can all stand between semicolons. -/
theorem exists_spells_iff {parts : List (List Char)} :
    (∃ entries, Spells entries parts) ↔ ∀ part ∈ parts, IsSegment part := by
  constructor
  · rintro ⟨entries, spelled⟩
    induction spelled with
    | none => exact List.forall_mem_nil _
    | skip blank rest inductionHypothesis =>
      exact List.forall_mem_cons.mpr ⟨isSegment_iff.mpr (Or.inl blank), inductionHypothesis⟩
    | entry own rest inductionHypothesis =>
      exact List.forall_mem_cons.mpr ⟨isSegment_iff.mpr (Or.inr ⟨_, own⟩), inductionHypothesis⟩
  · intro each
    induction parts with
    | nil => exact ⟨[], .none⟩
    | cons part parts inductionHypothesis =>
      obtain ⟨own, others⟩ := List.forall_mem_cons.mp each
      obtain ⟨entries, rest⟩ := inductionHypothesis others
      rcases isSegment_iff.mp own with blank | ⟨entry, spelled⟩
      · exact ⟨entries, .skip blank rest⟩
      · exact ⟨entry :: entries, .entry spelled rest⟩

/-- Access modes are refused as malformed. -/
theorem malformed_of_readAccess {segment : String} {flags : List Access}
    {ranges : List (Access × BitRange)} {text : List Char} {cause : Cause}
    (refused : readAccess segment flags ranges text = .error cause) : IsMalformed cause := by
  fun_induction readAccess segment flags ranges text with
  | case1 => cases refused
  | case2 => cases refused; trivial
  | case3 => cases refused; trivial
  | case4 flags ranges c text mode letter new noRange inductionHypothesis =>
    exact inductionHypothesis refused
  | case5 => cases refused; trivial
  | case6 flags ranges c text mode letter new range rest inside low inductionHypothesis =>
    exact inductionHypothesis refused

/-- A segment is refused as malformed. -/
theorem malformed_of_parseSegment {segment : List Char} {cause : Cause}
    (refused : parseSegment segment = .error cause) : IsMalformed cause := by
  unfold parseSegment at refused
  dsimp only at refused
  split at refused
  · cases refused
    trivial
  · split at refused
    · cases refused
      trivial
    · simp only [bind_error_iff, pure_not_error, and_false, exists_false, or_false] at refused
      exact malformed_of_readAccess refused

/-- A specification is refused as malformed, and the instruction is named. -/
theorem malformed_of_parseEntries {specification : String} {instruction : Option String}
    {failure : Failure} (refused : parseEntries specification instruction = .error failure) :
    IsMalformed failure.cause ∧ failure.instruction = instruction := by
  unfold parseEntries at refused
  cases read : (segments specification).mapM parseSegment with
  | ok entries =>
    rw [read] at refused
    cases refused
  | error cause =>
    rw [read] at refused
    cases refused
    obtain ⟨segment, -, own⟩ := mapM_error read
    exact ⟨malformed_of_parseSegment own, rfl⟩

/-- Decimal digits denote their number. -/
theorem numeralValue_toDigits (n : Nat) : Text.numeralValue (Nat.toDigits 10 n) = n := by
  have digit : ∀ n < 10, (Text.digitValue? n.digitChar).getD 0 = n := by decide
  induction n using Nat.strongRecOn with
  | _ n inductionHypothesis =>
    by_cases small : n < 10
    · rw [Nat.toDigits_of_lt_base small]
      simpa [Text.numeralValue] using digit n small
    · have former := inductionHypothesis (n / 10) (by omega)
      rw [Text.numeralValue] at former ⊢
      rw [Nat.toDigits_of_base_le (by decide) (by omega), List.foldl_append, former,
        List.foldl_cons, List.foldl_nil, digit _ (by omega)]
      omega

/-- The decimal digits of a number are a numeral. -/
theorem isNumeral_toDigits (n : Nat) : IsNumeral (Nat.toDigits 10 n) n where
  filled := Nat.toDigits_ne_nil
  each := by
    have digit : ∀ n < 10, Text.isDigit n.digitChar = true := by decide
    induction n using Nat.strongRecOn with
    | _ n inductionHypothesis =>
      by_cases small : n < 10
      · rw [Nat.toDigits_of_lt_base small]
        exact List.forall_mem_singleton.mpr (digit n small)
      · rw [Nat.toDigits_of_base_le (by decide) (by omega), List.forall_mem_append]
        exact ⟨inductionHypothesis (n / 10) (by omega),
          List.forall_mem_singleton.mpr (digit _ (by omega))⟩
  denotes := numeralValue_toDigits n

/-- A range of bits in decimal digits. -/
def BitRange.printed (range : BitRange) : List Char :=
  '[' :: (Nat.toDigits 10 range.low ++ '.' :: '.' :: (Nat.toDigits 10 range.high ++ [']']))

/-- Access modes, each with the range that restricts it. -/
def printedModes (ranges : List (Access × BitRange)) (modes : List Access) : List Char :=
  modes.flatMap fun mode => mode.letter :: ((ranges.lookup mode).map BitRange.printed).getD []

/-- The blanks outside of an operand and behind its name, and those around its access modes. -/
structure Padding where
  before : List Char
  behindName : List Char
  beforeModes : List Char
  behind : List Char

/-- What is printed between two semicolons: blanks, or an operand with blanks in it. -/
inductive Slot where
  | gap (blanks : List Char)
  | operand (entry : Entry) (padding : Padding)

namespace Slot

/-- The text of a slot. -/
def text : Slot → List Char
  | .gap blanks => blanks
  | .operand entry padding =>
    padding.before ++ entry.name.toList ++ padding.behindName ++
      ':' :: (padding.beforeModes ++ printedModes entry.ranges entry.flags ++ padding.behind)

/-- The operand of a slot, if it has one. -/
def entry? : Slot → Option Entry
  | .gap _ => none
  | .operand entry _ => some entry

/-- A slot that can be printed: its padding is blank, and its operand has a name without
semicolon, access modes that differ and ordered ranges for some of them, in the same order. -/
def IsPrintable : Slot → Prop
  | .gap blanks => Text.AreBlank blanks
  | .operand entry padding =>
    (Text.AreBlank padding.before ∧ Text.AreBlank padding.behindName ∧
      Text.AreBlank padding.beforeModes ∧ Text.AreBlank padding.behind) ∧
    (IsName entry.name.toList ∧ ';' ∉ entry.name.toList) ∧
    entry.flags.Nodup ∧ (entry.ranges.map Prod.fst).Sublist entry.flags ∧
    (∀ restricted ∈ entry.ranges, restricted.2.low ≤ restricted.2.high) ∧ entry.status = none

instance : (slot : Slot) → Decidable slot.IsPrintable
  | .gap blanks => inferInstanceAs (Decidable (Text.AreBlank blanks))
  | .operand _ _ => inferInstanceAs (Decidable (_ ∧ _ ∧ _ ∧ _ ∧ _ ∧ _))

end Slot

/-- The specification that slots make up. -/
def printedSlots (slots : List Slot) : String :=
  String.ofList ([';'].intercalate (slots.map Slot.text))

/-- A range that is not that of a mode does not matter to other modes. -/
theorem printedModes_cons {mode : Access} {range : BitRange} {ranges : List (Access × BitRange)}
    {modes : List Access} (other : mode ∉ modes) :
    printedModes ((mode, range) :: ranges) modes = printedModes ranges modes := by
  refine List.flatMap_congr fun listed member => ?_
  have differs : (listed == mode) = false := beq_eq_false_iff_ne.mpr fun same => other (same ▸ member)
  rw [List.lookup_cons, differs]

/-- Access modes that differ are printed as they are written. -/
theorem spellsModes_printed {modes : List Access} {ranges : List (Access × BitRange)}
    (distinct : modes.Nodup) (attached : (ranges.map Prod.fst).Sublist modes)
    (ordered : ∀ restricted ∈ ranges, restricted.2.low ≤ restricted.2.high) :
    SpellsModes modes ranges (printedModes ranges modes) := by
  induction modes generalizing ranges with
  | nil =>
    obtain rfl : ranges = [] := by simpa using attached
    exact .none
  | cons mode modes inductionHypothesis =>
    obtain ⟨own, others⟩ := List.nodup_cons.mp distinct
    rw [printedModes, List.flatMap_cons, ← printedModes]
    rcases List.sublist_cons_iff.mp attached with later | ⟨keys, same, later⟩
    · have absent : ranges.lookup mode = none := by
        rw [List.lookup_eq_none_iff]
        intro restricted member
        refine bne_iff_ne.mpr fun equal => own ?_
        exact later.mem (equal ▸ List.mem_map_of_mem member)
      rw [absent]
      exact .whole mode (inductionHypothesis others later ordered)
    · cases ranges with
      | nil => cases same
      | cons restricted ranges =>
        obtain ⟨key, range⟩ := restricted
        obtain ⟨rfl, rfl⟩ := List.cons.inj same
        obtain ⟨low, rest⟩ := List.forall_mem_cons.mp ordered
        rw [List.lookup_cons_self, printedModes_cons own]
        refine .ranged key ⟨_, _, isNumeral_toDigits _, isNumeral_toDigits _, rfl⟩ low ?_
        exact inductionHypothesis others later rest

/-- A printed operand is written in its slot. -/
theorem Slot.spellsEntry {entry : Entry} {padding : Padding}
    (printable : (Slot.operand entry padding).IsPrintable) :
    SpellsEntry entry (Slot.operand entry padding).text := by
  obtain ⟨⟨before, behindName, beforeModes, behind⟩, ⟨named, -⟩, distinct, attached, ordered,
    bare⟩ := printable
  exact ⟨bare, distinct, named, _, spellsModes_printed distinct attached ordered, _, _, _, _,
    before, behindName, beforeModes, behind, rfl⟩

/-- The operands of slots are written in them. -/
theorem spells_slots {slots : List Slot} (printable : ∀ slot ∈ slots, slot.IsPrintable) :
    Spells (slots.filterMap Slot.entry?) (slots.map Slot.text) := by
  induction slots with
  | nil => exact .none
  | cons slot slots inductionHypothesis =>
    obtain ⟨own, others⟩ := List.forall_mem_cons.mp printable
    have rest := inductionHypothesis others
    cases slot with
    | gap blanks => exact .skip own rest
    | operand entry padding => exact .entry (Slot.spellsEntry own) rest

/-- Printed access modes hold no semicolon. -/
theorem no_semicolon_of_printedModes (ranges : List (Access × BitRange)) (modes : List Access) :
    ';' ∉ printedModes ranges modes := by
  have digits (value : Nat) : ';' ∉ Nat.toDigits 10 value := fun member =>
    absurd (Nat.isDigit_of_mem_toDigits (by decide) (by decide) member) (by decide)
  have range (found : Option BitRange) : ';' ∉ (found.map BitRange.printed).getD [] := by
    cases found with
    | none => simp
    | some range => simp [BitRange.printed, digits]
  intro member
  obtain ⟨mode, -, inside⟩ := List.mem_flatMap.mp member
  rcases List.mem_cons.mp inside with letter | behind
  · cases mode <;> exact absurd letter (by decide)
  · exact range _ behind

/-- The text of a slot holds no semicolon. -/
theorem Slot.no_semicolon {slot : Slot} (printable : slot.IsPrintable) : ';' ∉ slot.text := by
  have blanks {text : List Char} (blank : Text.AreBlank text) : ';' ∉ text := fun member =>
    absurd (blank ';' member) (by decide)
  cases slot with
  | gap text => exact blanks printable
  | operand entry padding =>
    obtain ⟨⟨before, behindName, beforeModes, behind⟩, ⟨-, whole⟩, -⟩ := printable
    have modes := no_semicolon_of_printedModes entry.ranges entry.flags
    simp [Slot.text, blanks before, blanks behindName, blanks beforeModes, blanks behind, whole,
      modes]

/-- Parts without semicolons are found again between the semicolons. -/
theorem cutAt_intercalate {parts : List (List Char)} (filled : parts ≠ [])
    (clean : ∀ part ∈ parts, ';' ∉ part) : Text.cutAt ';' ([';'].intercalate parts) = parts := by
  induction parts with
  | nil => exact absurd rfl filled
  | cons part parts inductionHypothesis =>
    obtain ⟨own, others⟩ := List.forall_mem_cons.mp clean
    cases parts with
    | nil => simpa using Text.cutAt_clean own
    | cons second rest =>
      have later := inductionHypothesis (List.cons_ne_nil _ _) others
      have joined : [';'].intercalate (part :: second :: rest) =
          part ++ ';' :: [';'].intercalate (second :: rest) := by
        simp [List.intercalate_cons_cons]
      rw [joined, Text.cutAt_append _ _ _ own, later]

/-- What is printed is read again. -/
theorem parseEntries_printedSlots {slots : List Slot}
    (printable : ∀ slot ∈ slots, slot.IsPrintable) (instruction : Option String) :
    parseEntries (printedSlots slots) instruction = .ok (slots.filterMap Slot.entry?) := by
  rw [parseEntries_ok_iff, printedSlots, String.toList_ofList]
  cases slots with
  | nil => exact .skip (List.forall_mem_nil _) .none
  | cons slot slots =>
    have clean : ∀ part ∈ (slot :: slots).map Slot.text, ';' ∉ part :=
      List.forall_mem_map.mpr fun slot member => Slot.no_semicolon (printable slot member)
    rw [cutAt_intercalate (by simp) clean]
    exact spells_slots printable

/-- A specification is read exactly when each of its segments is blank or has a name, a colon and
distinct access modes with ordered ranges in it; otherwise it is refused as malformed, and the
instruction is named. The operands that are read are those that are written in the segments. So
operands that are printed, with any blanks around their parts and any blank segments between them,
are read again in their order with their access modes and ranges. -/
theorem specification_read :
    (∀ (specification : String) (instruction : Option String),
      ((∃ entries, parseEntries specification instruction = .ok entries) ↔
        ∀ part ∈ Text.cutAt ';' specification.toList, IsSegment part) ∧
      (∀ failure, parseEntries specification instruction = .error failure →
        IsMalformed failure.cause ∧ failure.instruction = instruction) ∧
      ∀ entries, parseEntries specification instruction = .ok entries ↔
        Spells entries (Text.cutAt ';' specification.toList)) ∧
    ∀ (slots : List Slot) (instruction : Option String),
      (∀ slot ∈ slots, slot.IsPrintable) →
        parseEntries (printedSlots slots) instruction = .ok (slots.filterMap Slot.entry?) := by
  refine ⟨fun specification instruction => ⟨?_, fun failure => malformed_of_parseEntries,
    fun entries => parseEntries_ok_iff⟩, fun slots instruction printable =>
      parseEntries_printedSlots printable instruction⟩
  rw [← exists_spells_iff]
  exact exists_congr fun entries => parseEntries_ok_iff

/-- Two operands with a blank segment between them, of which the second restricts one of its two
access modes and has blanks in it of which not all are spaces. -/
def paddedSlots : List Slot :=
  [.operand ⟨"RAX", [.read], [], none⟩ ⟨[], [], [], []⟩, .gap ['\t'],
    .operand ⟨"m [RDI]", [.written, .conditional], [(.conditional, ⟨0, 15⟩)], none⟩
      ⟨['\n'], [' '], [Char.ofNat 0x3000], [' ', ' ']⟩]

/-- They are read again. -/
theorem specification_read_padded :
    (∀ slot ∈ paddedSlots, slot.IsPrintable) ∧
      printedSlots paddedSlots = "RAX:r;\t;\nm [RDI] :\u3000wc[0..15]  " ∧
      parseEntries (printedSlots paddedSlots) none = .ok
        [⟨"RAX", [.read], [], none⟩,
          ⟨"m [RDI]", [.written, .conditional], [(.conditional, ⟨0, 15⟩)], none⟩] := by
  have printable : ∀ slot ∈ paddedSlots, slot.IsPrintable := by decide
  exact ⟨printable, by decide, specification_read.2 paddedSlots none printable⟩

end EncoderTables.Operand
