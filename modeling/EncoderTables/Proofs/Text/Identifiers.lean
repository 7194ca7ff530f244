import Mathlib.Data.List.Basic

/-!
# Identifiers in texts

Identifiers consist of letters, digits and underscores. The longest rows of these characters
in a text are its words; what stands between them keeps them apart. An identifier is a word
that starts with no digit and is no keyword.
-/

namespace EncoderTables.Text

/-- What holds of each character with a low code holds of one whose code is low. -/
theorem of_ascii {P : Char → Prop} (codes : ∀ code < 128, P (Char.ofNat code)) {c : Char}
    (low : c.toNat < 128) : P c := by
  have own := codes c.toNat low
  rwa [Char.ofNat_toNat] at own

/-- The characters of identifiers. -/
def isIdentifierPart (c : Char) : Bool := c.isAlphanum || c == '_'

/-- The words of a text, its longest rows of characters of identifiers. -/
def words (text : List Char) : List (List Char) :=
  (text.splitOnP fun c => !isIdentifierPart c).filter fun word => !word.isEmpty

/-- An empty text has no words. -/
theorem words_nil : words [] = [] := by
  simp [words]

/-- No word goes across a character that is not one of identifiers. -/
theorem words_append_cons {c : Char} (stop : isIdentifierPart c = false)
    (first second : List Char) : words (first ++ c :: second) = words first ++ words second := by
  rw [words, List.splitOnP_append_cons first second (by simpa using stop), List.filter_append]
  rfl

/-- No word goes across a row without characters of identifiers. -/
theorem words_append_append {row : List Char} (stops : ∀ c ∈ row, isIdentifierPart c = false)
    (nonempty : row ≠ []) (first second : List Char) :
    words (first ++ row ++ second) = words first ++ words second := by
  induction row generalizing first with
  | nil => exact absurd rfl nonempty
  | cons c rest inductionHypothesis =>
    obtain ⟨stop, others⟩ := List.forall_mem_cons.mp stops
    rw [List.append_assoc, List.cons_append, words_append_cons stop]
    cases rest with
    | nil => rfl
    | cons next rest =>
      have later := inductionHypothesis others (List.cons_ne_nil _ _) []
      rw [List.nil_append] at later
      rw [later]
      simp [words]

/-- What stands around a text without characters of identifiers adds no words. -/
theorem words_framed {before after : List Char} (front : ∀ c ∈ before, isIdentifierPart c = false)
    (back : ∀ c ∈ after, isIdentifierPart c = false) (text : List Char) :
    words (before ++ text ++ after) = words text := by
  have behind : words (text ++ after) = words text := by
    by_cases none : after = []
    · rw [none, List.append_nil]
    · have split := words_append_append back none text []
      rwa [List.append_nil, words_nil, List.append_nil] at split
  by_cases none : before = []
  · rw [none, List.nil_append, behind]
  · have split := words_append_append front none [] (text ++ after)
    rw [List.nil_append, words_nil, List.nil_append, behind] at split
    rw [List.append_assoc, split]

/-- A row of characters of identifiers is a word. -/
theorem words_of_parts {word : List Char} (parts : ∀ c ∈ word, isIdentifierPart c = true)
    (nonempty : word ≠ []) : words word = [word] := by
  have whole : (word.splitOnP fun c => !isIdentifierPart c) = [word] :=
    List.splitOnP_eq_singleton (by simpa using parts)
  simp [words, whole, nonempty]

/-- The letters of a word are characters of identifiers that the text has. -/
theorem mem_of_mem_words {text word : List Char} (member : word ∈ words text) {c : Char}
    (inside : c ∈ word) : c ∈ text ∧ isIdentifierPart c = true := by
  replace member := (List.mem_filter.mp member).1
  induction text generalizing word with
  | nil =>
    rw [List.splitOnP_nil, List.mem_singleton] at member
    exact absurd (member ▸ inside) List.not_mem_nil
  | cons first rest inductionHypothesis =>
    have later {word : List Char}
        (member : word ∈ rest.splitOnP fun c => !isIdentifierPart c) (inside : c ∈ word) :
        c ∈ first :: rest ∧ isIdentifierPart c = true :=
      (inductionHypothesis inside member).imp_left (List.mem_cons_of_mem first)
    rw [List.splitOnP_cons_eq_if_modifyHead] at member
    split at member
    · rcases List.mem_cons.mp member with rfl | other
      · exact absurd inside List.not_mem_nil
      · exact later other inside
    · next part =>
      obtain ⟨head, tail, pieces⟩ := List.exists_cons_of_ne_nil
        (List.splitOnP_ne_nil (fun c => !isIdentifierPart c) rest)
      rw [pieces, List.modifyHead_cons] at member
      rw [pieces] at later
      rcases List.mem_cons.mp member with rfl | other
      · rcases List.mem_cons.mp inside with rfl | more
        · exact ⟨List.mem_cons_self, by simpa using part⟩
        · exact later List.mem_cons_self more
      · exact later (List.mem_cons_of_mem head other) inside

/-- The keywords of the generated language. -/
def keywords : List String :=
  ["auto", "break", "case", "char", "const", "continue", "default", "do", "double", "else", "enum",
   "extern", "float", "for", "goto", "if", "inline", "int", "long", "register", "restrict",
   "return", "short", "signed", "sizeof", "static", "struct", "switch", "typedef", "union",
   "unsigned", "void", "volatile", "while", "_Alignas", "_Alignof", "_Atomic", "_Bool", "_Complex",
   "_Generic", "_Imaginary", "_Noreturn", "_Static_assert", "_Thread_local"]

/-- An identifier of the generated language. -/
def isIdentifier (text : String) : Bool :=
  text.toList.all isIdentifierPart && text.toList.head?.any (fun c => !c.isDigit) &&
    !keywords.contains text

/-- A text that identifiers can start with, and no keyword does. -/
def isLeader (leader : String) : Bool :=
  leader.toList.all isIdentifierPart && leader.toList.head?.any (fun c => !c.isDigit) &&
    keywords.all fun word => !leader.toList.isPrefixOf word.toList

/-- Behind such a text any characters of identifiers make an identifier. -/
theorem isIdentifier_append {leader : String} (leads : isLeader leader = true) (rest : String) :
    isIdentifier (leader ++ rest) = true ↔ ∀ c ∈ rest.toList, isIdentifierPart c = true := by
  simp only [isLeader, Bool.and_eq_true] at leads
  obtain ⟨⟨parts, start⟩, apart⟩ := leads
  have first : (leader ++ rest).toList.head?.any (fun c => !c.isDigit) = true := by
    rw [String.toList_append]
    cases letters : leader.toList with
    | nil => simp [letters] at start
    | cons c more => simpa [letters] using start
  have other : keywords.contains (leader ++ rest) = false := by
    rw [Bool.eq_false_iff, ne_eq, List.contains_iff_mem]
    intro member
    have free := List.all_eq_true.mp apart _ member
    simp [List.isPrefixOf_iff_prefix.mpr] at free
  rw [isIdentifier, first, other, String.toList_append, List.all_append, parts]
  simp

end EncoderTables.Text
