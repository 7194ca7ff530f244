import EncoderTables.Proofs.Text.Trimming

/-!
# Scanning code

A compiler joins the lines of a text that end with a backslash to those behind them, drops the
comments and takes the words between blanks. Brackets, commas and semicolons are words of their
own, and blanks between single quotes belong to their word. Blanks in front of a word do not
matter, nor do those inside of comments, so a text may be broken there.
-/

namespace EncoderTables.Text

/-- Line ends behind a backslash disappear together with it. -/
def splice : List Char → List Char
  | [] => []
  | [c] => [c]
  | c :: d :: rest => if c = '\\' ∧ d = '\n' then splice rest else c :: splice (d :: rest)

/-- A text without line ends stays as it is in front of one that it does not continue. -/
theorem splice_append {first second : List Char} (whole : '\n' ∉ first)
    (apart : first.getLast? = some '\\' → second.head? ≠ some '\n') :
    splice (first ++ second) = first ++ splice second := by
  induction first with
  | nil => rfl
  | cons c first inductionHypothesis =>
    have later := inductionHypothesis (List.not_mem_of_not_mem_cons whole)
    cases first with
    | nil =>
      cases second with
      | nil => rfl
      | cons d second =>
        have differs : ¬ (c = '\\' ∧ d = '\n') := by
          rintro ⟨rfl, rfl⟩
          exact apart rfl rfl
        show splice (c :: d :: second) = c :: splice (d :: second)
        rw [splice, if_neg differs]
    | cons d first =>
      have differs : ¬ (c = '\\' ∧ d = '\n') := by
        rintro ⟨-, rfl⟩
        exact whole (by simp)
      show splice (c :: d :: (first ++ second)) = c :: (d :: (first ++ splice second))
      rw [splice, if_neg differs]
      refine congrArg (c :: ·) (later fun stop => apart ?_)
      rw [List.getLast?_cons_cons]
      exact stop

/-- Nothing disappears at a character that is neither a backslash nor a line end. -/
theorem splice_around {c : Char} (slash : c ≠ '\\') (line : c ≠ '\n') (first second : List Char) :
    splice (first ++ c :: second) = splice first ++ c :: splice second := by
  fun_induction splice first with
  | case1 =>
    cases second with
    | nil => rfl
    | cons d second => rw [List.nil_append, splice, if_neg fun both => slash both.1]; rfl
  | case2 a =>
    have later : splice (c :: second) = c :: splice second := by
      cases second with
      | nil => rfl
      | cons d second => rw [splice, if_neg fun both => slash both.1]
    rw [List.singleton_append, splice, if_neg fun both => line both.2, later]
    rfl
  | case3 a d rest joined inductionHypothesis =>
    rw [List.cons_append, List.cons_append, splice, if_pos joined, inductionHypothesis]
  | case4 a d rest apart inductionHypothesis =>
    rw [List.cons_append, List.cons_append, splice, if_neg apart, ← List.cons_append,
      inductionHypothesis, List.cons_append]

/-- A text without line ends stays as it is. -/
theorem splice_whole {text : List Char} (whole : '\n' ∉ text) : splice text = text := by
  have own := @splice_append _ [] whole fun _ => by simp
  rwa [splice, List.append_nil] at own

/-- A continued line goes on. -/
theorem splice_continued {first : List Char} (whole : '\n' ∉ first) (second : List Char) :
    splice (first ++ '\\' :: '\n' :: second) = first ++ splice second := by
  rw [splice_append whole fun _ => by simp]
  rw [splice, if_pos ⟨rfl, rfl⟩]

/-- A line that is not continued ends. -/
theorem splice_ended {first : List Char} (whole : '\n' ∉ first)
    (stops : first.getLast? ≠ some '\\') (second : List Char) :
    splice (first ++ '\n' :: second) = first ++ '\n' :: splice second := by
  have line : splice ('\n' :: second) = '\n' :: splice second := by
    cases second with
    | nil => rfl
    | cons d second => rw [splice, if_neg (by simp)]
  rw [splice_append whole fun stop => absurd stop stops, line]

/-- Where a character stands: in the code, behind a slash there, in a comment that ends with the
line, in one that ends with a star and a slash, behind a star in such a comment, between single
quotes and behind a backslash there. -/
inductive Place where
  | code | slash | lineComment | blockComment | star | constant | escape
  deriving DecidableEq, Repr

/-- The state of a scanner: the place of the next character, the word in front of it and the
words before. -/
structure Scan where
  place : Place
  word : List Char
  words : List (List Char)
  deriving DecidableEq, Repr

/-- The blanks of code. -/
def isSpace (c : Char) : Bool := c ∈ [' ', '\t', '\n', '\x0b', '\x0c', '\r']

/-- Characters that are words of their own. -/
def isMark (c : Char) : Bool := c ∈ [',', ';', '(', ')', '[', ']', '\x7b', '\x7d']

namespace Scan

/-- A scanner in front of a text. -/
def start : Scan := ⟨.code, [], []⟩

/-- The words with the one that ends. -/
def closed (scan : Scan) : List (List Char) :=
  if scan.word = [] then scan.words else scan.words ++ [scan.word]

/-- The word ends and a place begins. -/
def close (scan : Scan) (place : Place) : Scan := ⟨place, [], scan.closed⟩

/-- The word gets a character and a place begins. -/
def extend (scan : Scan) (c : Char) (place : Place) : Scan :=
  ⟨place, scan.word ++ [c], scan.words⟩

/-- Scan a character in the code. -/
def readCode (scan : Scan) (c : Char) : Scan :=
  if isSpace c then scan.close .code
  else if isMark c then ⟨.code, [], scan.closed ++ [[c]]⟩
  else if c = '/' then { scan with place := .slash }
  else scan.extend c (if c = '\x27' then .constant else .code)

/-- Scan a character. -/
def read (scan : Scan) (c : Char) : Scan :=
  match scan.place with
  | .code => scan.readCode c
  | .slash =>
    if c = '/' then scan.close .lineComment
    else if c = '*' then scan.close .blockComment
    else (scan.extend '/' .code).readCode c
  | .lineComment => if c = '\n' then { scan with place := .code } else scan
  | .blockComment => if c = '*' then { scan with place := .star } else scan
  | .star =>
    if c = '/' then { scan with place := .code }
    else if c = '*' then scan
    else { scan with place := .blockComment }
  | .constant =>
    scan.extend c (if c = '\\' then .escape else if c = '\x27' then .code else .constant)
  | .escape => scan.extend c .constant

/-- Scan a text. -/
def readAll (scan : Scan) (text : List Char) : Scan := text.foldl read scan

/-- The words at the end of a text. -/
def finish (scan : Scan) : List (List Char) :=
  if scan.place = .slash then (scan.extend '/' .code).closed else scan.closed

end Scan

/-- The words that a compiler sees in a text. -/
def seen (text : List Char) : List (List Char) := (Scan.start.readAll (splice text)).finish

namespace Scan

/-- A scanner in a comment has no word in front of it. -/
def IsTidy (scan : Scan) : Prop :=
  scan.place ∈ [.lineComment, .blockComment, .star] → scan.word = []

/-- One text is scanned behind another. -/
theorem readAll_append (scan : Scan) (first second : List Char) :
    scan.readAll (first ++ second) = (scan.readAll first).readAll second := List.foldl_append

/-- The first character of a text is scanned first. -/
theorem readAll_cons (scan : Scan) (c : Char) (text : List Char) :
    scan.readAll (c :: text) = (scan.read c).readAll text := rfl

/-- A character of code does not lead into a comment. -/
theorem place_readCode (scan : Scan) (c : Char) :
    (scan.readCode c).place ∉ [.lineComment, .blockComment, .star] := by
  unfold readCode
  split
  · simp [close]
  · split
    · simp
    · split
      · simp
      · split <;> simp [extend]

/-- A word ends in front of a comment. -/
theorem IsTidy.read {scan : Scan} (tidy : scan.IsTidy) (c : Char) : (scan.read c).IsTidy := by
  obtain ⟨place, word, words⟩ := scan
  cases place with
  | code => exact fun comment => absurd comment (place_readCode _ c)
  | slash =>
    simp only [Scan.read]
    split
    · exact fun _ => rfl
    · split
      · exact fun _ => rfl
      · exact fun comment => absurd comment (place_readCode _ c)
  | lineComment | blockComment =>
    have none : word = [] := tidy (by simp)
    simp only [Scan.read]
    split <;> exact fun _ => none
  | star =>
    have none : word = [] := tidy (by simp)
    simp only [Scan.read]
    split
    · exact fun _ => none
    · split <;> exact fun _ => none
  | constant =>
    intro comment
    simp only [Scan.read, extend] at comment
    split at comment
    · simp at comment
    · split at comment <;> simp at comment
  | escape => exact fun comment => absurd comment (by simp [Scan.read, extend])

/-- A scanned text leaves no word in front of a comment. -/
theorem IsTidy.readAll {scan : Scan} (tidy : scan.IsTidy) (text : List Char) :
    (scan.readAll text).IsTidy := by
  induction text generalizing scan with
  | nil => exact tidy
  | cons c text inductionHypothesis => exact inductionHypothesis (tidy.read c)

/-- Blanks end a word of code, and more of them do nothing. -/
theorem readAll_spaces {scan : Scan} (code : scan.place = .code) {spaces : List Char}
    (blank : ∀ c ∈ spaces, isSpace c = true) (ends : spaces ≠ [] ∨ scan.word = []) :
    scan.readAll spaces = scan.close .code := by
  obtain ⟨place, word, words⟩ := scan
  obtain rfl : place = .code := code
  induction spaces generalizing word words with
  | nil =>
    obtain rfl : word = [] := ends.resolve_left fun none => none rfl
    rfl
  | cons c spaces inductionHypothesis =>
    obtain ⟨own, others⟩ := List.forall_mem_cons.mp blank
    have first : Scan.read ⟨.code, word, words⟩ c = Scan.close ⟨.code, word, words⟩ .code := by
      simp [Scan.read, readCode, own]
    rw [readAll_cons, first]
    exact inductionHypothesis others [] _ (Or.inr rfl)

/-- A slash in front of blanks is part of the word that they end. -/
theorem readAll_spaces_slash {scan : Scan} (slash : scan.place = .slash) {spaces : List Char}
    (blank : ∀ c ∈ spaces, isSpace c = true) (ends : spaces ≠ []) :
    scan.readAll spaces = (scan.extend '/' .code).close .code := by
  obtain ⟨place, word, words⟩ := scan
  obtain rfl : place = .slash := slash
  obtain ⟨c, spaces, rfl⟩ := List.exists_cons_of_ne_nil ends
  have own := blank c List.mem_cons_self
  have notSlash : c ≠ '/' := by
    rintro rfl
    exact absurd own (by decide)
  have notStar : c ≠ '*' := by
    rintro rfl
    exact absurd own (by decide)
  have same : Scan.read ⟨.slash, word, words⟩ c =
      Scan.read (Scan.extend ⟨.slash, word, words⟩ '/' .code) c := by
    simp [Scan.read, extend, notSlash, notStar]
  rw [readAll_cons, same, ← readAll_cons]
  exact readAll_spaces rfl blank (Or.inl (List.cons_ne_nil _ _))

/-- Nothing but its end matters in a line comment. -/
theorem readAll_lineComment {scan : Scan} (comment : scan.place = .lineComment) {text : List Char}
    (whole : '\n' ∉ text) : scan.readAll text = scan := by
  induction text with
  | nil => rfl
  | cons c text inductionHypothesis =>
    have other : c ≠ '\n' := fun same => whole (same ▸ List.mem_cons_self)
    have own : scan.read c = scan := by simp [Scan.read, comment, other]
    rw [readAll_cons, own]
    exact inductionHypothesis (List.not_mem_of_not_mem_cons whole)

/-- Nothing but a star matters in a block comment. -/
theorem readAll_blockComment {scan : Scan} (comment : scan.place = .blockComment)
    {text : List Char} (clean : '*' ∉ text) : scan.readAll text = scan := by
  induction text with
  | nil => rfl
  | cons c text inductionHypothesis =>
    have other : c ≠ '*' := fun same => clean (same ▸ List.mem_cons_self)
    have own : scan.read c = scan := by simp [Scan.read, comment, other]
    rw [readAll_cons, own]
    exact inductionHypothesis (List.not_mem_of_not_mem_cons clean)

/-- A star in front of blanks is part of the comment. -/
theorem readAll_spaces_star {scan : Scan} (star : scan.place = .star) {spaces : List Char}
    (blank : ∀ c ∈ spaces, isSpace c = true) (ends : spaces ≠ []) :
    scan.readAll spaces = { scan with place := .blockComment } := by
  have clean : '*' ∉ spaces := fun member => absurd (blank _ member) (by decide)
  obtain ⟨c, spaces, rfl⟩ := List.exists_cons_of_ne_nil ends
  have notSlash : c ≠ '/' := by
    rintro rfl
    exact absurd (blank _ List.mem_cons_self) (by decide)
  have notStar : c ≠ '*' := fun same => clean (same ▸ List.mem_cons_self)
  have own : scan.read c = { scan with place := .blockComment } := by
    simp [Scan.read, star, notSlash, notStar]
  rw [readAll_cons, own]
  exact readAll_blockComment rfl (List.not_mem_of_not_mem_cons clean)

end Scan

end EncoderTables.Text
