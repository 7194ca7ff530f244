import EncoderTables.Proofs.Code.Cuts

/-!
# Widths of pieces

A break is looked for from shortly before the page width on, so a line is left whole only if it
has none from there to its end. A piece that is cut within the page width grows behind the break:
by the character at the break unless it is a blank, and by what marks its continuation. So it fits
the page just if there is room for both, and exceeds it by three characters at most.
-/

namespace EncoderTables.Code

/-- The number of characters that a cut adds behind the break. -/
def Cut.added (cut : Cut) : Nat :=
  (if cut.text[cut.position]? = some ' ' then 0 else 1) + cut.ending.text.length

/-- No character of a list has a break at a position of another. -/
theorem firstBreak_eq_none_iff {text : List Char} {positions : List Nat} {chars : List Char} :
    firstBreak text positions chars = none ↔
      ∀ position ∈ positions, ∀ c ∈ chars, breaks text c position = false := by
  simp only [firstBreak, List.findSome?_eq_none_iff, List.find?_eq_none, Bool.not_eq_true]
  exact ⟨fun none position member c listed => none c listed position member,
    fun none c listed position member => none position member c listed⟩

/-- The positions that are looked at are those from shortly before the page width on, behind the
start. -/
theorem mem_positions {width start length position : Nat} (inside : position < length) :
    position ∈ nearPositions width start ∨ position ∈ farPositions length width start ↔
      max (width - lookBack) start < position := by
  simp only [nearPositions, farPositions, lookBack, List.mem_reverse, List.mem_range'_1]
  omega

/-- There is no break to be found just if there is none from shortly before the page width on. -/
theorem breakAt?_eq_none_iff {text : List Char} {width start : Nat} {split : Option Char} :
    breakAt? text width split start = none ↔
      ∀ position, max (width - lookBack) start < position → position < text.length →
        ∀ c ∈ breakChars split, breaks text c position = false := by
  have both : breakAt? text width split start = none ↔
      firstBreak text (nearPositions width start) (breakChars split) = none ∧
        firstBreak text (farPositions text.length width start) (breakChars split) = none := by
    unfold breakAt?
    cases firstBreak text (nearPositions width start) (breakChars split) <;> simp
  rw [both, firstBreak_eq_none_iff, firstBreak_eq_none_iff]
  constructor
  · rintro ⟨near, far⟩ position behind inside
    rcases (mem_positions inside).mpr behind with member | member
    · exact near position member
    · exact far position member
  · intro none
    constructor
    · intro position member c listed
      by_contra hit
      have inside := breaks_lt_length (Bool.not_eq_false _ ▸ hit)
      exact hit (none position ((mem_positions inside).mp (Or.inl member)) inside c listed)
    · intro position member c listed
      by_contra hit
      have inside := breaks_lt_length (Bool.not_eq_false _ ▸ hit)
      exact hit (none position ((mem_positions inside).mp (Or.inr member)) inside c listed)

/-- A piece ends behind the break and what is added there. -/
theorem Cut.length_piece {split : Option Char} {cut : Cut} (isAtBreak : cut.IsAtBreak split) :
    cut.piece.length = cut.position + cut.added := by
  obtain ⟨c, -, found, -⟩ := isAtBreak.broken
  have inside := isAtBreak.inside
  have kept : cut.kept = cut.text.take cut.position ++ if c = ' ' then [] else [c] :=
    keptUpTo_eq found
  rw [piece, List.length_append, kept, List.length_append, List.length_take, added, found,
    Nat.min_eq_left inside.le]
  by_cases blank : c = ' '
  · simp [blank]
  · simp [blank]
    omega

/-- A cut adds three characters at most. -/
theorem Cut.added_le (cut : Cut) : cut.added ≤ 3 := by
  have ending : cut.ending.text.length ≤ 2 := by cases cut.ending <;> decide
  unfold added
  split <;> omega

/-- The break of each cut is the one that is looked for. -/
theorem Broken.found {page : Page} {split : Option Char} {directive inLiteral : Bool}
    {next lead body last : List Char} {cuts : List Cut}
    (broken : Broken page split directive next inLiteral lead body cuts last) :
    ∀ cut ∈ cuts, breakAt? cut.text page.width split cut.lead.length = some cut.position := by
  induction broken with
  | whole stays => exact List.forall_mem_nil _
  | broken long found ends others inductionHypothesis =>
    exact List.forall_mem_cons.mpr ⟨found, inductionHypothesis⟩

/-- A piece that is cut within the page width fits the page just if there is room for what the cut
adds: the character at the break unless it is a blank, and the mark of its continuation. So it
exceeds the page by three characters at most, and not at all when it is cut at a blank and is not
marked. A text is left whole just if it has no break behind the start from shortly before the page
width on, which are all breaks behind the start if that is not further off. -/
theorem piece_fits_iff (page : Page) (split : Option Char) (leader margin line text : List Char)
    (start : Nat) :
    (∃ cuts last, Wrapped page split leader margin line cuts last ∧
      wrap page split leader margin line = cuts.map Cut.piece ++ [last] ∧
      ∀ cut ∈ cuts, breakAt? cut.text page.width split cut.lead.length = some cut.position ∧
        (cut.position ≤ page.width →
          (cut.piece.length ≤ page.width ↔ cut.position + cut.added ≤ page.width) ∧
          cut.piece.length ≤ page.width + 3 ∧
          (cut.text[cut.position]? = some ' ' → cut.ending = .plain →
            cut.piece.length ≤ page.width))) ∧
    (breakAt? text page.width split start = none ↔
      ∀ position, max (page.width - lookBack) start < position → position < text.length →
        ∀ c ∈ breakChars split, breaks text c position = false) ∧
    (page.width ≤ start + lookBack → (breakAt? text page.width split start = none ↔
      ∀ position, start < position → position < text.length →
        ∀ c ∈ breakChars split, breaks text c position = false)) := by
  refine ⟨?_, breakAt?_eq_none_iff, fun near => ?_⟩
  · obtain ⟨cuts, last, wrapped, pieces⟩ := exists_wrapped page split leader margin line
    refine ⟨cuts, last, wrapped, pieces, fun cut member => ?_⟩
    cases wrapped with
    | whole narrow => cases member
    | broken room broken =>
      have length := Cut.length_piece (broken.isAtBreak cut member)
      have few := cut.added_le
      refine ⟨broken.found cut member, fun within => ⟨by rw [length], by omega, ?_⟩⟩
      intro blank plain
      have none : cut.added = 0 := by rw [Cut.added, if_pos blank, plain]; rfl
      omega
  · have same : max (page.width - lookBack) start = start := by omega
    rw [breakAt?_eq_none_iff, same]

/-- A list whose first comma stands just behind a page of twenty characters. -/
def overhanging : List Char := List.replicate 20 'a' ++ [',', ' ', 'b']

/-- A text whose only blank stands far before the end of a page of twenty characters. -/
def distant : List Char := 'a' :: ' ' :: List.replicate 29 'b'

/-- Behind its blank the text has none. -/
theorem breaks_distant {position : Nat} (behind : 1 < position) :
    breaks distant ' ' position = false := by
  obtain ⟨place, rfl⟩ : ∃ place, position = place + 2 := ⟨position - 2, by omega⟩
  have letters : distant[place + 2]? ≠ some ' ' := fun blank =>
    absurd (List.eq_of_mem_replicate (List.mem_of_getElem? (i := place) blank)) (by decide)
  simp [breaks, letters]

/-- The list is cut behind its comma, which stands off the page. The blank of the other text is a
break behind the start, but it is further than eight characters from the page width and none is
found; from a start that is not further off, all breaks are looked at. -/
theorem overhanging_comma :
    (∃ (cuts : List Cut) (last : List Char),
      wrap ⟨2, 20⟩ (some ',') [] [] overhanging = cuts.map Cut.piece ++ [last] ∧
      ∃ cut ∈ cuts, cut.position ≤ 20 ∧ ¬ cut.piece.length ≤ 20 ∧ cut.piece.length ≤ 23) ∧
    (breaks distant ' ' 1 = true ∧ breakAt? distant 20 (some ' ') 0 = none) ∧
    20 ≤ 12 + lookBack ∧ (breakAt? overhanging 20 (some ' ') 12 = none ↔
      ∀ position, 12 < position → position < overhanging.length →
        ∀ c ∈ breakChars (some ' '), breaks overhanging c position = false) := by
  have none := (piece_fits_iff ⟨2, 20⟩ (some ' ') [] [] [] distant 0).2.1.mpr (by
    intro position behind _ c listed
    obtain rfl := List.mem_singleton.mp listed
    exact breaks_distant (Nat.lt_of_le_of_lt (by decide) behind))
  refine ⟨?_, ⟨by decide, none⟩, by decide,
    (piece_fits_iff ⟨2, 20⟩ (some ' ') [] [] [] overhanging 12).2.2 (by decide)⟩
  obtain ⟨cuts, last, wrapped, pieces, fits⟩ :=
    (piece_fits_iff ⟨2, 20⟩ (some ',') [] [] overhanging [] 0).1
  refine ⟨cuts, last, pieces, ?_⟩
  cases wrapped with
  | whole narrow => exact absurd narrow (by decide)
  | broken room broken =>
    cases broken with
    | whole stays => exact absurd (stays (by decide)) (by decide)
    | @broken _ _ _ position ending cuts _ long found ends others =>
      have atComma : breakAt? overhanging 20 (some ',') 0 = some 20 := by decide
      obtain rfl : position = 20 := Option.some.inj (found.symm.trans atComma)
      have member : (⟨[], overhanging, 20, ending⟩ : Cut) ∈ ⟨[], overhanging, 20, ending⟩ :: cuts :=
        List.mem_cons_self
      obtain ⟨fit, few, -⟩ := (fits _ member).2 (Nat.le_refl 20)
      have comma : (if overhanging[20]? = some ' ' then 0 else 1) = 1 := by decide
      refine ⟨_, member, Nat.le_refl 20, fun within => ?_, few⟩
      have enough := fit.mp within
      have grown : 1 ≤ Cut.added ⟨[], overhanging, 20, ending⟩ := by
        rw [← comma]
        exact Nat.le_add_right _ _
      exact absurd (Nat.le_trans (Nat.add_le_add_left grown 20) enough) (by decide)

end EncoderTables.Code
