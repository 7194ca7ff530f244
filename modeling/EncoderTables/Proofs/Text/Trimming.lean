import EncoderTables.Proofs.Text.Lines
import Mathlib.Data.List.TakeWhile

/-!
# Trimming

Blanks around a text do not matter when it is trimmed, and what is left has none at its ends.
All characters that are not blank stay, in their order.
-/

namespace EncoderTables.Text

/-- Characters that are all blank. -/
def AreBlank (text : List Char) : Prop := ∀ c ∈ text, isBlank c = true

instance (text : List Char) : Decidable (AreBlank text) :=
  List.decidableBAll _ text

instance (text : List Char) : Decidable (IsTrimmed text) :=
  decidable_of_iff (text.head?.all (!isBlank ·) ∧ text.getLast?.all (!isBlank ·)) <| by
    simp only [Option.all_eq_true, Bool.not_eq_true']
    exact ⟨fun ends => ⟨ends.1, ends.2⟩, fun trimmed => ⟨trimmed.start, trimmed.stop⟩⟩

/-- A row of blanks. -/
theorem areBlank_replicate (count : Nat) : AreBlank (List.replicate count ' ') := by
  intro c member
  rw [List.eq_of_mem_replicate member]
  decide

/-- Blanks behind blanks. -/
theorem AreBlank.append {first second : List Char} (one : AreBlank first) (two : AreBlank second) :
    AreBlank (first ++ second) :=
  List.forall_mem_append.mpr ⟨one, two⟩

/-- Blanks in front do not matter. -/
theorem trim_append_left {blanks : List Char} (blank : AreBlank blanks) (text : List Char) :
    trim (blanks ++ text) = trim text := by
  rw [trim, trimStart, List.dropWhile_append_of_pos blank, ← trimStart, ← trim]

/-- The blanks in front of a text are those up to its first other character. -/
theorem takeWhile_blanks {blanks text : List Char} (blank : AreBlank blanks)
    (starts : ∀ c ∈ text.head?, isBlank c = false) :
    (blanks ++ text).takeWhile isBlank = blanks := by
  have none : text.takeWhile isBlank = [] := by
    cases text with
    | nil => rfl
    | cons c rest => exact List.takeWhile_cons_of_neg (by simpa using starts c rfl)
  rw [List.takeWhile_append_of_pos blank, none, List.append_nil]

/-- Nothing is left of blanks, and only of them. -/
theorem trim_eq_nil_iff {text : List Char} : trim text = [] ↔ AreBlank text := by
  rw [trim, trimEnd, trimStart, List.reverse_eq_nil_iff, List.dropWhile_eq_nil_iff]
  simp only [List.mem_reverse]
  constructor
  · intro rest c member
    -- What is behind the first blanks would start with a character that is not blank.
    by_contra visible
    have filled : text.dropWhile isBlank ≠ [] := fun none =>
      visible (List.dropWhile_eq_nil_iff.mp none c member)
    obtain ⟨first, others, behind⟩ := List.exists_cons_of_ne_nil filled
    have start := List.head?_dropWhile_not isBlank text
    simp only [behind, List.head?_cons] at start
    have blank := rest first (behind ▸ List.mem_cons_self)
    rw [start] at blank
    cases blank
  · intro blank c member
    exact blank c ((List.dropWhile_sublist _).mem member)

/-- Blanks behind do not matter. -/
theorem trim_append_right {blanks : List Char} (blank : AreBlank blanks) (text : List Char) :
    trim (text ++ blanks) = trim text := by
  by_cases hidden : AreBlank text
  · rw [trim_eq_nil_iff.mpr hidden, trim_eq_nil_iff]
    exact hidden.append blank
  · have filled : (text.dropWhile isBlank).isEmpty = false := by
      rw [List.isEmpty_eq_false_iff, ne_eq, List.dropWhile_eq_nil_iff]
      exact hidden
    rw [trim, trimStart, List.dropWhile_append, filled, if_neg Bool.false_ne_true, trimEnd,
      List.reverse_append,
      List.dropWhile_append_of_pos fun c member => blank c (List.mem_reverse.mp member), ← trimEnd,
      ← trimStart, ← trim]

/-- What is left has no blanks at its ends. -/
theorem isTrimmed_trim (text : List Char) : IsTrimmed (trim text) where
  start := by
    intro c first
    have front : trim text <+: trimStart text := by
      rw [trim, trimEnd, ← List.reverse_suffix, List.reverse_reverse]
      exact List.dropWhile_suffix _
    have own : (trimStart text).head? = some c := by
      obtain ⟨rest, whole⟩ := front
      rw [← whole, List.head?_append, Option.mem_def.mp first]
      rfl
    have visible := List.head?_dropWhile_not isBlank text
    rw [← trimStart, own] at visible
    exact visible
  stop := by
    intro c last
    rw [trim, trimEnd, List.getLast?_reverse] at last
    have visible := List.head?_dropWhile_not isBlank (trimStart text).reverse
    rw [Option.mem_def.mp last] at visible
    exact visible

/-- A text is what trimming leaves of it between the blanks at its ends. -/
theorem exists_tail (text : List Char) :
    ∃ tail, AreBlank tail ∧ text = text.takeWhile isBlank ++ (trim text ++ tail) := by
  refine ⟨((trimStart text).reverse.takeWhile isBlank).reverse,
    fun c member => List.mem_takeWhile_imp (List.mem_reverse.mp member), ?_⟩
  rw [trim, trimEnd, ← List.reverse_append, List.takeWhile_append_dropWhile, List.reverse_reverse,
    trimStart, List.takeWhile_append_dropWhile]

/-- The characters of a text that are not blank. -/
def visible (text : List Char) : List Char := text.filter fun c => !isBlank c

/-- The visible characters of a text behind another. -/
@[simp]
theorem visible_append (first second : List Char) :
    visible (first ++ second) = visible first ++ visible second := List.filter_append ..

/-- The first character is visible unless it is a blank. -/
theorem visible_cons (c : Char) (text : List Char) :
    visible (c :: text) = (if isBlank c then [] else [c]) ++ visible text := by
  cases blank : isBlank c <;> simp [visible, blank]

/-- Blanks are not visible. -/
theorem visible_eq_nil {text : List Char} (blank : AreBlank text) : visible text = [] :=
  List.filter_eq_nil_iff.mpr fun c member => by simp [blank c member]

end EncoderTables.Text
