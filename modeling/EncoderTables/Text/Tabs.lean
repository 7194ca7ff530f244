/-!
# Tab stops and lines

Tabs are replaced by blanks up to the next multiple of the stop distance; columns are
counted from the start of the text and anew after each line end. With distance zero a
tab disappears. A text is cut into lines at its line feeds.
-/

namespace EncoderTables.Text

/-- Expand the tabs of a text whose first character stands in the given column. -/
def expandFrom (distance : Nat) (column : Nat) : List Char → List Char
  | [] => []
  | c :: rest =>
    if c = '\t' then
      if distance = 0 then expandFrom distance column rest
      else
        let gap := distance - column % distance
        List.replicate gap ' ' ++ expandFrom distance (column + gap) rest
    else if c = '\n' || c = '\r' then c :: expandFrom distance 0 rest
    else c :: expandFrom distance (column + 1) rest

/-- Expand the tabs of a text that starts a line. -/
def expandTabs (distance : Nat) (text : List Char) : List Char := expandFrom distance 0 text

/-- The parts of a text between the occurrences of a separator; there is always one
more part than there are separators. -/
def cutAt (separator : Char) : List Char → List (List Char)
  | [] => [[]]
  | c :: rest =>
    match cutAt separator rest with
    | [] => [[c]]
    | first :: others =>
      if c = separator then [] :: first :: others else (c :: first) :: others

/-- Cutting leaves at least one part. -/
theorem cutAt_ne_nil (separator : Char) (text : List Char) : cutAt separator text ≠ [] := by
  cases text with
  | nil => simp [cutAt]
  | cons c rest =>
    unfold cutAt
    split
    · simp
    · split <;> simp

/-- A text without separators in front of one is a part of its own. -/
theorem cutAt_append (separator : Char) (first rest : List Char) (clean : separator ∉ first) :
    cutAt separator (first ++ separator :: rest) = first :: cutAt separator rest := by
  induction first with
  | nil =>
    obtain ⟨head, others, shape⟩ := List.exists_cons_of_ne_nil (cutAt_ne_nil separator rest)
    simp [cutAt, shape]
  | cons c first inductionHypothesis =>
    have differs : c ≠ separator := fun same => clean (same ▸ List.mem_cons_self ..)
    have inside := inductionHypothesis fun member => clean (List.mem_cons_of_mem _ member)
    simp [cutAt, inside, differs]

end EncoderTables.Text
