import Mathlib.Data.List.Forall2
import EncoderTables.Text.Blank
import EncoderTables.Text.Tabs

/-!
# Lines of a text

A text that arrives in pieces is cut into the same lines as the whole text, save for the tabs,
which are expanded in each piece for itself. However they are expanded, each line keeps its
characters in their order and the same outermost characters, unless it starts or ends with a
blank.
-/

namespace EncoderTables.Text

/-- A text in which every tab has given way to some blanks. -/
inductive Widened : List Char → List Char → Prop where
  | nil : Widened [] []
  | tab (gap : Nat) {text wide : List Char} (rest : Widened text wide) :
    Widened ('\t' :: text) (List.replicate gap ' ' ++ wide)
  | other {c : Char} {text wide : List Char} (noTab : c ≠ '\t') (rest : Widened text wide) :
    Widened (c :: text) (c :: wide)

/-- Expanding tabs puts blanks in their places. -/
theorem widened_expandFrom (distance column : Nat) (text : List Char) :
    Widened text (expandFrom distance column text) := by
  induction text generalizing column with
  | nil => exact .nil
  | cons c rest inductionHypothesis =>
    unfold expandFrom
    split
    · next tab =>
      subst tab
      split
      · exact .tab 0 (inductionHypothesis column)
      · exact .tab _ (inductionHypothesis _)
    · next noTab =>
      split
      · exact .other noTab (inductionHypothesis 0)
      · exact .other noTab (inductionHypothesis _)

namespace Widened

/-- One text behind another. -/
theorem append {first second wide broad : List Char} (one : Widened first wide)
    (two : Widened second broad) : Widened (first ++ second) (wide ++ broad) := by
  induction one with
  | nil => exact two
  | tab gap rest inductionHypothesis =>
    rw [List.append_assoc]
    exact .tab gap inductionHypothesis
  | other noTab rest inductionHypothesis => exact .other noTab inductionHypothesis

/-- A text without tabs stays as it is. -/
theorem eq_of_no_tab {text wide : List Char} (widened : Widened text wide)
    (noTab : '\t' ∉ text) : wide = text := by
  induction widened with
  | nil => rfl
  | tab gap rest => exact absurd List.mem_cons_self noTab
  | other other rest inductionHypothesis =>
    rw [inductionHypothesis fun member => noTab (List.mem_cons_of_mem _ member)]

/-- No characters but blanks come in. -/
theorem not_mem {c : Char} {text wide : List Char} (widened : Widened text wide)
    (noBlank : c ≠ ' ') (clean : c ∉ text) : c ∉ wide := by
  induction widened with
  | nil => exact clean
  | tab gap rest inductionHypothesis =>
    rw [List.mem_append, not_or]
    exact ⟨fun member => noBlank (List.eq_of_mem_replicate member),
      inductionHypothesis (List.not_mem_of_not_mem_cons clean)⟩
  | other noTab rest inductionHypothesis =>
    exact List.not_mem_cons_of_ne_of_not_mem (List.ne_of_not_mem_cons clean)
      (inductionHypothesis (List.not_mem_of_not_mem_cons clean))

/-- The first character stays unless it is a tab. -/
theorem exists_cons {c : Char} {text wide : List Char} (widened : Widened (c :: text) wide)
    (noTab : c ≠ '\t') : ∃ behind, wide = c :: behind ∧ Widened text behind := by
  cases widened with
  | tab gap rest => exact absurd rfl noTab
  | other other rest => exact ⟨_, rfl, rest⟩

/-- The parts of a text are expanded for themselves. -/
theorem exists_append {first second wide : List Char} (widened : Widened (first ++ second) wide) :
    ∃ front back, wide = front ++ back ∧ Widened first front ∧ Widened second back := by
  induction first generalizing wide with
  | nil => exact ⟨[], wide, rfl, .nil, widened⟩
  | cons c first inductionHypothesis =>
    cases widened with
    | tab gap rest =>
      obtain ⟨front, back, rfl, one, two⟩ := inductionHypothesis rest
      exact ⟨_, back, (List.append_assoc ..).symm, .tab gap one, two⟩
    | other noTab rest =>
      obtain ⟨front, back, rfl, one, two⟩ := inductionHypothesis rest
      exact ⟨_, back, rfl, .other noTab one, two⟩

end Widened

/-- Cutting at a separator. -/
@[simp]
theorem cutAt_cons_self (separator : Char) (text : List Char) :
    cutAt separator (separator :: text) = [] :: cutAt separator text := by
  obtain ⟨first, others, parts⟩ := List.exists_cons_of_ne_nil (cutAt_ne_nil separator text)
  simp [cutAt, parts]

/-- A text without separators stands in front of the first part. -/
theorem cutAt_clean_append {separator : Char} {front text first : List Char}
    {others : List (List Char)} (clean : separator ∉ front)
    (parts : cutAt separator text = first :: others) :
    cutAt separator (front ++ text) = (front ++ first) :: others := by
  induction front with
  | nil => exact parts
  | cons c front inductionHypothesis =>
    have differs : c ≠ separator := fun same => clean (same ▸ List.mem_cons_self)
    have inside := inductionHypothesis fun member => clean (List.mem_cons_of_mem _ member)
    simp [cutAt, inside, differs]

/-- A text without separators is one part. -/
theorem cutAt_clean {separator : Char} {text : List Char} (clean : separator ∉ text) :
    cutAt separator text = [text] := by
  simpa using cutAt_clean_append clean (rfl : cutAt separator [] = [[]])

/-- A text behind another continues its last part. -/
theorem cutAt_append_last (separator : Char) (first second : List Char) :
    cutAt separator (first ++ second) = (cutAt separator first).dropLast ++
      cutAt separator ((cutAt separator first).getLastD [] ++ second) := by
  induction first with
  | nil => rfl
  | cons c first inductionHypothesis =>
    obtain ⟨head, tail, parts⟩ := List.exists_cons_of_ne_nil (cutAt_ne_nil separator first)
    rw [parts] at inductionHypothesis
    rw [List.cons_append]
    by_cases same : c = separator
    · subst same
      rw [cutAt_cons_self, cutAt_cons_self, inductionHypothesis, parts]
      rfl
    · have apart : separator ∉ [c] := by simpa using fun equal => same equal.symm
      have own := cutAt_clean_append apart parts
      rw [List.singleton_append] at own
      rw [own]
      cases tail with
      | nil =>
        -- The character continues the part that the second text continues as well.
        obtain ⟨start, others, more⟩ :=
          List.exists_cons_of_ne_nil (cutAt_ne_nil separator (head ++ second))
        have joined : cutAt separator (first ++ second) = start :: others := by
          simpa [more] using inductionHypothesis
        have left := cutAt_clean_append apart joined
        have right := cutAt_clean_append apart more
        simp only [List.singleton_append] at left right
        simp [left, right]
      | cons second others =>
        have left := cutAt_clean_append apart inductionHypothesis
        simpa using left

/-- No part has a separator in it. -/
theorem not_mem_of_mem_cutAt {separator : Char} {text part : List Char}
    (member : part ∈ cutAt separator text) : separator ∉ part := by
  induction text generalizing part with
  | nil =>
    obtain rfl : part = [] := by simpa [cutAt] using member
    exact List.not_mem_nil
  | cons c text inductionHypothesis =>
    obtain ⟨first, others, parts⟩ := List.exists_cons_of_ne_nil (cutAt_ne_nil separator text)
    rw [parts] at inductionHypothesis
    by_cases same : c = separator
    · subst same
      rw [cutAt_cons_self, parts, List.mem_cons] at member
      rcases member with rfl | inside
      · exact List.not_mem_nil
      · exact inductionHypothesis inside
    · have apart : separator ∉ [c] := by simpa using fun equal => same equal.symm
      rw [← List.singleton_append, cutAt_clean_append apart parts, List.mem_cons] at member
      rcases member with rfl | later
      · rw [List.mem_append, not_or]
        exact ⟨apart, inductionHypothesis List.mem_cons_self⟩
      · exact inductionHypothesis (List.mem_cons_of_mem _ later)

/-- The last part has no separator in it. -/
theorem not_mem_last (separator : Char) (text : List Char) :
    separator ∉ (cutAt separator text).getLastD [] := by
  have filled := cutAt_ne_nil separator text
  rw [List.getLastD_eq_getLast?, List.getLast?_eq_some_getLast filled]
  exact not_mem_of_mem_cutAt (List.getLast_mem filled)

/-- The lines of a text with their ends are the text with an end. -/
theorem flatMap_cutAt (text : List Char) :
    (cutAt '\n' text).flatMap (· ++ ['\n']) = text ++ ['\n'] := by
  induction text with
  | nil => rfl
  | cons c text inductionHypothesis =>
    obtain ⟨first, others, parts⟩ := List.exists_cons_of_ne_nil (cutAt_ne_nil '\n' text)
    by_cases line : c = '\n'
    · subst line
      rw [cutAt_cons_self, List.flatMap_cons, inductionHypothesis]
      rfl
    · have apart : '\n' ∉ [c] := by simpa using fun equal => line equal.symm
      have own := cutAt_clean_append apart parts
      rw [parts] at inductionHypothesis
      rw [List.singleton_append, List.singleton_append] at own
      rw [own, List.cons_append, ← inductionHypothesis]
      rfl

/-- Lines that all have ended are cut into themselves, and nothing stands behind the last. -/
theorem cutAt_flatMap {lines : List (List Char)} (whole : ∀ line ∈ lines, '\n' ∉ line) :
    cutAt '\n' (lines.flatMap (· ++ ['\n'])) = lines ++ [[]] := by
  induction lines with
  | nil => rfl
  | cons line rest inductionHypothesis =>
    obtain ⟨own, others⟩ := List.forall_mem_cons.mp whole
    rw [List.flatMap_cons, List.append_assoc, List.singleton_append, cutAt_append _ _ _ own,
      inductionHypothesis others, List.cons_append]

/-- Lines that all have ended are cut into themselves, with their tabs expanded, and nothing
stands behind the last. -/
theorem cutAt_lines {lines : List (List Char)} (whole : ∀ line ∈ lines, '\n' ∉ line)
    {wide : List Char} (widened : Widened (lines.flatMap (· ++ ['\n'])) wide) :
    ∃ wides, cutAt '\n' wide = wides ++ [[]] ∧ List.Forall₂ Widened lines wides := by
  induction lines generalizing wide with
  | nil =>
    cases widened
    exact ⟨[], rfl, .nil⟩
  | cons line lines inductionHypothesis =>
    obtain ⟨own, others⟩ := List.forall_mem_cons.mp whole
    rw [List.flatMap_cons, List.append_assoc] at widened
    obtain ⟨front, back, rfl, one, more⟩ := widened.exists_append
    obtain ⟨behind, rfl, rest⟩ := more.exists_cons (by decide)
    obtain ⟨wides, cut, each⟩ := inductionHypothesis others rest
    refine ⟨front :: wides, ?_, .cons one each⟩
    rw [cutAt_append _ _ _ (one.not_mem (by decide) own), cut, List.cons_append]

/-- A text that neither starts nor ends with a blank. -/
structure IsTrimmed (text : List Char) : Prop where
  start : ∀ c ∈ text.head?, isBlank c = false
  stop : ∀ c ∈ text.getLast?, isBlank c = false

/-- A tab is blank. -/
theorem ne_tab {c : Char} (visible : isBlank c = false) : c ≠ '\t' := by
  rintro rfl
  revert visible
  decide

namespace IsTrimmed

variable {text wide : List Char}

/-- Such a text stays when it is trimmed. -/
theorem trim_eq (trimmed : IsTrimmed text) : trim text = text := by
  have kept {side : List Char} (visible : ∀ c ∈ side.head?, isBlank c = false) :
      side.dropWhile isBlank = side := by
    cases side with
    | nil => rfl
    | cons c rest => exact List.dropWhile_cons_of_neg (by simpa using visible c rfl)
  have back : text.reverse.dropWhile isBlank = text.reverse :=
    kept (by simpa using trimmed.stop)
  rw [trim, trimStart, kept trimmed.start, trimEnd, back, List.reverse_reverse]

/-- Its first character stays when tabs are expanded. -/
theorem head?_widened (trimmed : IsTrimmed text) (widened : Widened text wide) :
    wide.head? = text.head? := by
  cases widened with
  | nil => rfl
  | tab gap rest => exact absurd rfl (ne_tab (trimmed.start _ rfl))
  | other noTab rest => rfl

/-- Its last character stays when tabs are expanded. -/
theorem getLast?_widened (trimmed : IsTrimmed text) (widened : Widened text wide) :
    wide.getLast? = text.getLast? := by
  rcases List.eq_nil_or_concat' text with rfl | ⟨former, last, rfl⟩
  · cases widened
    rfl
  · obtain ⟨front, back, rfl, -, own⟩ := widened.exists_append
    obtain ⟨behind, rfl, rest⟩ := own.exists_cons (ne_tab (trimmed.stop last (by simp)))
    cases rest
    simp

/-- It stays trimmed when tabs are expanded. -/
theorem widened (trimmed : IsTrimmed text) (widened : Widened text wide) : IsTrimmed wide where
  start := trimmed.head?_widened widened ▸ trimmed.start
  stop := trimmed.getLast?_widened widened ▸ trimmed.stop

end IsTrimmed

end EncoderTables.Text
