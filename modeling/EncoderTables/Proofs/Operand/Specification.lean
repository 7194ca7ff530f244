import EncoderTables.Operand.Basic
import EncoderTables.Proofs.Results
import EncoderTables.Proofs.Text.Lines
import Mathlib.Data.List.TakeWhile

/-!
# Where a specification ends

A segment of a specification that is read is blank or holds a single colon, with a name
before it: access modes hold no colon. So a specification that is read is not read any more
with a colon and anything else behind it, and a text that continues with a colon shows
where the specification ends.
-/

namespace EncoderTables.Operand

open Results

/-- What can be read between semicolons: blanks, or a single colon with something before it
that is not blank. -/
inductive IsReadable : List Char → Prop where
  | blank {part : List Char} (blank : ∀ c ∈ part, Text.isBlank c = true) : IsReadable part
  | named {before behind : List Char} {c : Char} (early : ':' ∉ before) (late : ':' ∉ behind)
      (member : c ∈ before) (visible : Text.isBlank c = false) :
      IsReadable (before ++ ':' :: behind)

/-- A colon is not blank. -/
theorem colon_visible : Text.isBlank ':' = false := by decide

/-- Blanks hold no colon. -/
theorem no_colon_of_blank {blanks : List Char} (each : ∀ c ∈ blanks, Text.isBlank c = true) :
    ':' ∉ blanks := by
  intro member
  have colon := each ':' member
  rw [colon_visible] at colon
  cases colon

/-- What can be read cannot be read any more with a colon behind it. -/
theorem IsReadable.not_append {part : List Char} (readable : IsReadable part)
    (further : List Char) : ¬ IsReadable (part ++ ':' :: further) := by
  intro longer
  generalize same : part ++ ':' :: further = whole at longer
  cases longer with
  | blank blank =>
    exact no_colon_of_blank blank (same ▸ List.mem_append_right part List.mem_cons_self)
  | @named before behind c early late member visible =>
    -- The first colon of the longer text is the only one it holds.
    have inside : part = before ∧ further = behind ∨ ':' ∈ part := by
      rcases List.append_eq_append_iff.mp same with ⟨gap, rfl, tail⟩ | ⟨gap, rfl, tail⟩
      · cases gap with
        | nil => exact Or.inl ⟨by simp, by simpa using tail⟩
        | cons d gap =>
          obtain ⟨rfl, -⟩ := List.cons.inj tail
          exact absurd (List.mem_append_right part List.mem_cons_self) early
      · cases gap with
        | nil => exact Or.inl ⟨by simp, by simpa using tail.symm⟩
        | cons d gap =>
          obtain ⟨rfl, -⟩ := List.cons.inj tail
          exact Or.inr (List.mem_append_right before List.mem_cons_self)
    rcases inside with ⟨rfl, rfl⟩ | colon
    · cases readable with
      | blank blank =>
        rw [blank c member] at visible
        cases visible
      | named _ _ _ _ => exact early (List.mem_append_right _ List.mem_cons_self)
    · have count := congrArg (List.count ':') same
      have once : List.count ':' (before ++ ':' :: behind) = 1 := by
        simp [List.count_eq_zero.mpr early, List.count_eq_zero.mpr late]
      have twice : 0 < List.count ':' part := List.count_pos_iff.mpr colon
      rw [once, List.count_append, List.count_cons_self] at count
      omega

/-- Trimming drops blanks only. -/
theorem exists_trim (text : List Char) : ∃ start stop,
    text = start ++ Text.trim text ++ stop ∧ (∀ c ∈ start, Text.isBlank c = true) ∧
      ∀ c ∈ stop, Text.isBlank c = true := by
  refine ⟨text.takeWhile Text.isBlank,
    ((Text.trimStart text).reverse.takeWhile Text.isBlank).reverse, ?_,
    fun c => List.mem_takeWhile_imp, fun c member =>
      List.mem_takeWhile_imp (List.mem_reverse.mp member)⟩
  rw [List.append_assoc, Text.trim, Text.trimEnd, ← List.reverse_append,
    List.takeWhile_append_dropWhile, List.reverse_reverse, Text.trimStart,
    List.takeWhile_append_dropWhile]

/-- What is readable without the blanks around it is readable with them. -/
theorem readable_of_trim {part : List Char} (readable : IsReadable (Text.trim part)) :
    IsReadable part := by
  obtain ⟨start, stop, split, first, last⟩ := exists_trim part
  generalize inner : Text.trim part = middle at readable split
  rw [split]
  cases readable with
  | blank blank =>
    refine .blank fun c member => ?_
    simp only [List.mem_append] at member
    rcases member with (early | inside) | late
    · exact first c early
    · exact blank c inside
    · exact last c late
  | @named before behind c early late member visible =>
    have rearranged : start ++ (before ++ ':' :: behind) ++ stop =
        (start ++ before) ++ ':' :: (behind ++ stop) := by simp
    rw [rearranged]
    refine .named ?_ ?_ (List.mem_append_right start member) visible
    · simpa [List.mem_append] using ⟨no_colon_of_blank first, early⟩
    · simpa [List.mem_append] using ⟨late, no_colon_of_blank last⟩

/-- A bit range holds no colon. -/
theorem mem_of_bitRange {text rest : List Char} {range : BitRange}
    (found : bitRange? text = some (range, rest)) (member : ':' ∈ text) : ':' ∈ rest := by
  have dropped {letters : List Char} (listed : ':' ∈ letters) :
      ':' ∈ letters.dropWhile Text.isDigit := by
    rw [← List.takeWhile_append_dropWhile (p := Text.isDigit) (l := letters),
      List.mem_append] at listed
    rcases listed with digit | behind
    · exact absurd (List.mem_takeWhile_imp digit) (by decide)
    · exact behind
  unfold bitRange? at found
  split at found
  · next low =>
    have afterLow := dropped (List.mem_of_ne_of_mem (by decide) member)
    split at found
    · next high lowEnd =>
      rw [lowEnd] at afterLow
      have afterHigh := dropped (List.mem_of_ne_of_mem (by decide)
        (List.mem_of_ne_of_mem (by decide) afterLow))
      split at found
      · next after highEnd =>
        rw [highEnd] at afterHigh
        dsimp only at found
        split at found
        · cases found
        · cases found
          exact List.mem_of_ne_of_mem (by decide) afterHigh
      · cases found
    · cases found
  · cases found

/-- No access mode has a colon for its letter. -/
theorem ne_colon_of_letter {c : Char} {mode : Access} (found : Access.ofLetter? c = some mode) :
    c ≠ ':' := by
  rintro rfl
  exact absurd found (by decide +revert)

/-- Access modes that are read hold no colon. -/
theorem no_colon_of_readAccess {segment : String} {flags : List Access}
    {ranges : List (Access × BitRange)} {text : List Char}
    {found : List Access × List (Access × BitRange)}
    (read : readAccess segment flags ranges text = .ok found) : ':' ∉ text := by
  fun_induction readAccess segment flags ranges text with
  | case1 => simp
  | case2 => cases read
  | case3 => cases read
  | case4 flags ranges c text mode letter new noRange inductionHypothesis =>
    rw [List.mem_cons, not_or]
    exact ⟨(ne_colon_of_letter letter).symm, inductionHypothesis read⟩
  | case5 => cases read
  | case6 flags ranges c text mode letter new range rest found low inductionHypothesis =>
    rw [List.mem_cons, not_or]
    exact ⟨(ne_colon_of_letter letter).symm, fun member =>
      inductionHypothesis read (mem_of_bitRange found member)⟩

/-- What trimming leaves something of is not all blank. -/
theorem exists_visible {text : List Char} (filled : Text.trim text ≠ []) :
    ∃ c ∈ text, Text.isBlank c = false := by
  by_contra hidden
  have blank : ∀ c ∈ text, Text.isBlank c = true := fun c member =>
    Bool.not_eq_false _ ▸ fun visible => hidden ⟨c, member, visible⟩
  apply filled
  simp [Text.trim, Text.trimStart, Text.trimEnd, List.dropWhile_eq_nil_iff.mpr blank]

/-- A segment that is read is readable. -/
theorem readable_of_parseSegment {segment : List Char} {entry : Entry}
    (read : parseSegment segment = .ok entry) : IsReadable segment := by
  unfold parseSegment at read
  dsimp only at read
  split at read
  · cases read
  · next colon flags rest =>
    split at read
    · cases read
    · next named =>
      simp only [bind_ok_iff] at read
      obtain ⟨modes, found, -⟩ := read
      have separator : colon = ':' := by
        have first := List.head?_dropWhile_not (· != ':') segment
        simpa [rest] using first
      have early : ':' ∉ segment.takeWhile (· != ':') := fun member =>
        absurd (List.mem_takeWhile_imp member) (by decide)
      obtain ⟨c, member, visible⟩ := exists_visible (List.isEmpty_eq_false_iff.mp
        (Bool.not_eq_true _ ▸ named))
      obtain ⟨start, stop, split, first, last⟩ := exists_trim flags
      have late : ':' ∉ flags := by
        rw [split]
        simp only [List.mem_append, not_or]
        exact ⟨⟨no_colon_of_blank first, no_colon_of_readAccess found⟩, no_colon_of_blank last⟩
      rw [← List.takeWhile_append_dropWhile (p := (· != ':')) (l := segment), rest, separator]
      exact .named early late member visible

/-- The parts between the semicolons of a specification that is read are readable. -/
theorem readable_of_ofText {specification : String} {instruction : Option String}
    {operands : List Operand} (read : ofText specification instruction = .ok operands) :
    ∀ part ∈ Text.cutAt ';' specification.toList, IsReadable part := by
  simp only [ofText, parseGathered, parseEntries, bind_ok_iff, map_ok_iff, mapError_ok_iff] at read
  obtain ⟨_, ⟨entries, parsed, -⟩, -⟩ := read
  intro part member
  apply readable_of_trim
  by_cases empty : Text.trim part = []
  · rw [empty]
    exact .blank (by simp)
  · have listed : Text.trim part ∈ segments specification := by
      rw [segments, List.mem_filter]
      exact ⟨List.mem_map_of_mem member, by simpa using empty⟩
    obtain ⟨entry, own⟩ := mapM_ok parsed _ listed
    exact readable_of_parseSegment own

/-- A text is cut independently of what follows, save for its last part. -/
theorem exists_cutAt_append (separator : Char) (text : List Char) : ∃ parts last,
    ∀ rest first others, Text.cutAt separator rest = first :: others →
      Text.cutAt separator (text ++ rest) = parts ++ (last ++ first) :: others := by
  refine ⟨(Text.cutAt separator text).dropLast, (Text.cutAt separator text).getLastD [],
    fun rest first others found => ?_⟩
  rw [Text.cutAt_append_last, Text.cutAt_clean_append (Text.not_mem_last separator text) found]

/-- A specification that is read is not read with a colon and more behind it. -/
theorem not_ofText_append {first second : String} {name other : Option String}
    {operands more : List Operand} {further : List Char} (one : ofText first name = .ok operands)
    (two : ofText second other = .ok more) : second.toList ≠ first.toList ++ ':' :: further := by
  intro longer
  obtain ⟨parts, last, cut⟩ := exists_cutAt_append ';' first.toList
  have readable := readable_of_ofText one
  have readableToo := readable_of_ofText two
  have own := cut [] [] [] rfl
  rw [List.append_nil, List.append_nil] at own
  obtain ⟨head, tail, behind⟩ : ∃ head tail,
      Text.cutAt ';' (':' :: further) = (':' :: head) :: tail := by
    obtain ⟨head, tail, shape⟩ := List.exists_cons_of_ne_nil (Text.cutAt_ne_nil ';' further)
    exact ⟨head, tail, by simp [Text.cutAt, shape]⟩
  rw [own] at readable
  rw [longer, cut _ _ _ behind] at readableToo
  exact (readable last (by simp)).not_append head (readableToo _ (by simp))

/-- A specification that is read ends before a colon in one way. -/
theorem specification_append {first second : String} {name other : Option String}
    {operands more : List Operand} {rest others : List Char}
    (one : ofText first name = .ok operands) (two : ofText second other = .ok more)
    (same : first.toList ++ ':' :: rest = second.toList ++ ':' :: others) :
    first = second ∧ rest = others := by
  rcases List.append_eq_append_iff.mp same with ⟨gap, longer, tail⟩ | ⟨gap, longer, tail⟩
  · cases gap with
    | nil =>
      rw [List.append_nil] at longer
      exact ⟨(String.toList_inj.mp longer).symm, (List.cons.inj tail).2⟩
    | cons c gap =>
      obtain ⟨rfl, -⟩ := List.cons.inj tail
      exact absurd longer (not_ofText_append one two)
  · cases gap with
    | nil =>
      rw [List.append_nil] at longer
      exact ⟨String.toList_inj.mp longer, (List.cons.inj tail).2.symm⟩
    | cons c gap =>
      obtain ⟨rfl, -⟩ := List.cons.inj tail
      exact absurd longer (not_ofText_append two one)

end EncoderTables.Operand
