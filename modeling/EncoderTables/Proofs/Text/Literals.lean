import EncoderTables.Proofs.Text.Identifiers
import EncoderTables.Proofs.Text.Lines
import EncoderTables.Proofs.Text.Scanning

/-!
# String literals

A string literal ends at the first double quote that no backslash stands before, and on its line.
A backslash begins an escape: a letter, up to three octal digits, or hexadecimal ones. So a text
whose backslashes and double quotes are escaped is read as it is, while one that has some of them
and is not escaped is read as another, with fewer visible characters if any.
-/

namespace EncoderTables.Text

/-- The characters that stand for another one, or for themselves, behind a backslash. -/
def letterEscapes : List (Char × Char) :=
  [('\x27', '\x27'), ('"', '"'), ('?', '?'), ('\\', '\\'), ('a', '\x07'), ('b', '\x08'),
    ('f', '\x0c'), ('n', '\n'), ('r', '\r'), ('t', '\t'), ('v', '\x0b')]

/-- The value of a hexadecimal digit. -/
def hexValue? (c : Char) : Option Nat :=
  if 48 ≤ c.toNat ∧ c.toNat ≤ 57 then some (c.toNat - 48)
  else if 97 ≤ c.toNat ∧ c.toNat ≤ 102 then some (c.toNat - 87)
  else if 65 ≤ c.toNat ∧ c.toNat ≤ 70 then some (c.toNat - 55)
  else none

/-- A character is a digit to a base. -/
def isDigitTo (base : Nat) (c : Char) : Bool := (hexValue? c).any (· < base)

/-- The value of digits to a base. -/
def valueTo (base : Nat) (digits : List Char) : Nat :=
  digits.foldl (fun value c => value * base + (hexValue? c).getD 0) 0

/-- The character of a number, if there is one up to a limit. -/
def charOf? (limit value : Nat) : Option Char :=
  if value ≤ limit ∧ value.isValidChar then some (Char.ofNat value) else none

/-- The greatest number of a character in octal or hexadecimal digits. -/
def byteLimit : Nat := 255

/-- The greatest number of any character. -/
def codeLimit : Nat := 0x10ffff

/-- The character of an escape, given by digits to a base, of which there must be at least some and
may be at most some. -/
def numberEscape? (base least most limit : Nat) (text : List Char) : Option (Char × List Char) :=
  let digits := (text.takeWhile (isDigitTo base)).take most
  if digits.length < least then none
  else (charOf? limit (valueTo base digits)).map fun c => (c, text.drop digits.length)

/-- The character that the text behind a backslash stands for, and what follows. -/
def escape? : List Char → Option (Char × List Char)
  | [] => none
  | c :: rest =>
    match letterEscapes.lookup c with
    | some meant => some (meant, rest)
    | none =>
      if isDigitTo 8 c then numberEscape? 8 1 3 byteLimit (c :: rest)
      else if c = 'x' then numberEscape? 16 1 rest.length byteLimit rest
      else if c = 'u' then numberEscape? 16 4 4 codeLimit rest
      else if c = 'U' then numberEscape? 16 8 8 codeLimit rest
      else none

/-- What a part of a text that has been read leaves: a text that it is in front of. -/
theorem numberEscape?_suffix {base least most limit : Nat} {text behind : List Char} {c : Char}
    (found : numberEscape? base least most limit text = some (c, behind)) :
    ∃ digits, text = digits ++ behind ∧ least ≤ digits.length ∧
      ∀ digit ∈ digits, isDigitTo base digit = true := by
  unfold numberEscape? at found
  dsimp only at found
  split at found
  · cases found
  · next enough =>
    simp only [Option.map_eq_some_iff, Prod.mk.injEq] at found
    obtain ⟨_, -, rfl, rfl⟩ := found
    have front : (text.takeWhile (isDigitTo base)).take most <+: text :=
      (List.take_prefix _ _).trans (List.takeWhile_prefix _)
    refine ⟨_, (List.prefix_iff_eq_append.mp front).symm, Nat.le_of_not_lt enough, ?_⟩
    exact fun digit member => List.mem_takeWhile_imp (List.mem_of_mem_take member)

/-- A digit can be seen and does not end a line. -/
theorem visible_of_isDigitTo {base : Nat} {c : Char} (digit : isDigitTo base c = true) :
    isBlank c = false ∧ c ≠ '\n' := by
  have valued : (hexValue? c).isSome = true := by
    unfold isDigitTo at digit
    cases found : hexValue? c with
    | none => simp [found] at digit
    | some value => rfl
  have low : c.toNat < 128 := by
    unfold hexValue? at valued
    split at valued
    · omega
    · split at valued
      · omega
      · split at valued
        · omega
        · cases valued
  exact of_ascii (P := fun c => (hexValue? c).isSome = true → isBlank c = false ∧ c ≠ '\n')
    (by decide) low valued

/-- The text of an escape can be seen, and it ends no line. -/
theorem escape?_suffix {text behind : List Char} {c : Char}
    (found : escape? text = some (c, behind)) :
    ∃ code, text = code ++ behind ∧ code ≠ [] ∧ ∀ letter ∈ code,
      isBlank letter = false ∧ letter ≠ '\n' := by
  have letters : ∀ entry ∈ letterEscapes, isBlank entry.1 = false ∧ entry.1 ≠ '\n' := by decide
  -- Digits behind a letter that can be seen.
  have numbered {letter : Char} {base least most limit : Nat} {rest : List Char}
      (visible : isBlank letter = false ∧ letter ≠ '\n')
      (inside : numberEscape? base least most limit rest = some (c, behind)) :
      ∃ code, letter :: rest = code ++ behind ∧ code ≠ [] ∧ ∀ letter ∈ code,
        isBlank letter = false ∧ letter ≠ '\n' := by
    obtain ⟨digits, rfl, -, all⟩ := numberEscape?_suffix inside
    exact ⟨letter :: digits, rfl, List.cons_ne_nil _ _, List.forall_mem_cons.mpr
      ⟨visible, fun digit member => visible_of_isDigitTo (all digit member)⟩⟩
  cases text with
  | nil => cases found
  | cons letter rest =>
    rw [escape?] at found
    cases known : letterEscapes.lookup letter with
    | some meant =>
      rw [known] at found
      obtain ⟨rfl, rfl⟩ : meant = c ∧ rest = behind := by simpa using found
      obtain ⟨former, later, listed, -⟩ := List.lookup_eq_some_iff.mp known
      have visible := letters (letter, meant) (listed ▸ List.mem_append_right _ List.mem_cons_self)
      exact ⟨[letter], rfl, List.cons_ne_nil _ _, List.forall_mem_singleton.mpr visible⟩
    | none =>
      rw [known] at found
      dsimp only at found
      split at found
      · obtain ⟨digits, whole, some_, all⟩ := numberEscape?_suffix found
        exact ⟨digits, whole, List.ne_nil_of_length_pos some_,
          fun digit member => visible_of_isDigitTo (all digit member)⟩
      · split at found
        · next letter =>
          subst letter
          exact numbered (by decide) found
        · split at found
          · next letter =>
            subst letter
            exact numbered (by decide) found
          · split at found
            · next letter =>
              subst letter
              exact numbered (by decide) found
            · cases found

/-- An escape leaves no longer text behind it. -/
theorem escape?_length_le {text behind : List Char} {c : Char}
    (found : escape? text = some (c, behind)) : behind.length ≤ text.length := by
  obtain ⟨code, rfl, -⟩ := escape?_suffix found
  simp

/-- What a string literal stands for, read behind its opening quote, and what follows it. -/
def literal? : List Char → Option (List Char × List Char)
  | [] => none
  | c :: rest =>
    if c = '"' then some ([], rest)
    else if c = '\n' then none
    else if c = '\\' then
      match _ : escape? rest with
      | none => none
      | some (meant, behind) => (literal? behind).map fun (text, after) => (meant :: text, after)
    else (literal? rest).map fun (text, after) => (c :: text, after)
  termination_by text => text.length
  decreasing_by
    · have shorter := escape?_length_le ‹escape? _ = some _›
      simp only [List.length_cons]
      omega
    · exact Nat.lt_succ_self _

example : literal? "a\\x41\\\"\\101b\\n\"; rest".toList =
    some ("aA\"Ab\n".toList, "; rest".toList) := by
  decide +kernel

/-- What is read behind a text that stands for itself. -/
def readBehind (front : List Char) (read : Option (List Char × List Char)) :
    Option (List Char × List Char) :=
  read.map fun (text, after) => (front ++ text, after)

/-- What is read behind two texts. -/
theorem readBehind_append (first second : List Char) (read : Option (List Char × List Char)) :
    readBehind (first ++ second) read = readBehind first (readBehind second read) := by
  cases read <;> simp [readBehind]

/-- The first double quote ends a literal. -/
theorem literal?_close (rest : List Char) : literal? ('"' :: rest) = some ([], rest) := by
  rw [literal?, if_pos rfl]

/-- Other characters stand for themselves. -/
theorem literal?_cons {c : Char} (quote : c ≠ '"') (line : c ≠ '\n') (slash : c ≠ '\\')
    (rest : List Char) : literal? (c :: rest) = readBehind [c] (literal? rest) := by
  rw [literal?, if_neg quote, if_neg line, if_neg slash]
  rfl

/-- A backslash begins an escape. -/
theorem literal?_escape (rest : List Char) : literal? ('\\' :: rest) =
    (escape? rest).bind fun (meant, behind) => readBehind [meant] (literal? behind) := by
  rw [literal?, if_neg (by decide), if_neg (by decide), if_pos rfl]
  split
  · next none => rw [none]; rfl
  · next found => rw [found]; rfl

/-- A character as it stands in a literal. -/
def escapedChar (c : Char) : List Char := if c = '\\' || c = '"' then ['\\', c] else [c]

/-- A text as it stands in a literal. -/
def escaped (text : List Char) : List Char := text.flatMap escapedChar

/-- An escaped text in front of another. -/
@[simp]
theorem escaped_append (first second : List Char) :
    escaped (first ++ second) = escaped first ++ escaped second := List.flatMap_append

/-- The first character of a text is escaped first. -/
theorem escaped_cons (c : Char) (text : List Char) :
    escaped (c :: text) = escapedChar c ++ escaped text := rfl

/-- A text without backslashes and double quotes needs no escapes. -/
theorem escaped_eq {text : List Char} (slash : '\\' ∉ text) (quote : '"' ∉ text) :
    escaped text = text := by
  induction text with
  | nil => rfl
  | cons c text inductionHypothesis =>
    have own : escapedChar c = [c] := by
      unfold escapedChar
      have first : c ≠ '\\' := (List.ne_of_not_mem_cons slash).symm
      have second : c ≠ '"' := (List.ne_of_not_mem_cons quote).symm
      simp [first, second]
    rw [escaped_cons, own, inductionHypothesis (List.not_mem_of_not_mem_cons slash)
      (List.not_mem_of_not_mem_cons quote)]
    rfl

/-- All characters of a text are there when it is escaped. -/
theorem mem_escaped_of_mem {c : Char} {text : List Char} (member : c ∈ text) : c ∈ escaped text := by
  refine List.mem_flatMap.mpr ⟨c, member, ?_⟩
  unfold escapedChar
  split <;> simp

/-- Escapes bring in backslashes only. -/
theorem mem_escaped {c : Char} {text : List Char} (member : c ∈ escaped text) :
    c ∈ text ∨ c = '\\' := by
  obtain ⟨own, listed, inside⟩ := List.mem_flatMap.mp member
  unfold escapedChar at inside
  split at inside
  · rcases List.mem_cons.mp inside with slash | same
    · exact Or.inr slash
    · exact Or.inl (List.mem_singleton.mp same ▸ listed)
  · exact Or.inl (List.mem_singleton.mp inside ▸ listed)

/-- An escaped text is cut at a blank of the text. -/
theorem exists_escaped_cons {source own rest : List Char} {c : Char}
    (same : escaped source = own ++ c :: rest) (blank : isBlank c = true) :
    ∃ front back, source = front ++ c :: back ∧ own = escaped front ∧ rest = escaped back := by
  induction source generalizing own with
  | nil => simp [escaped] at same
  | cons d source inductionHypothesis =>
    rw [escaped_cons] at same
    by_cases special : d = '\\' ∨ d = '"'
    · have shape : escapedChar d = ['\\', d] := by simp [escapedChar, special]
      rw [shape] at same
      -- The blank is neither the backslash nor the character behind it.
      rcases own with - | ⟨a, - | ⟨b, own⟩⟩
      · obtain ⟨rfl, -⟩ := List.cons.inj same
        exact absurd blank (by decide)
      · obtain ⟨-, later⟩ := List.cons.inj same
        obtain ⟨rfl, -⟩ := List.cons.inj later
        rcases special with rfl | rfl <;> exact absurd blank (by decide)
      · obtain ⟨rfl, later⟩ := List.cons.inj same
        obtain ⟨rfl, others⟩ := List.cons.inj later
        obtain ⟨front, back, rfl, rfl, rest⟩ := inductionHypothesis others
        exact ⟨d :: front, back, rfl, by rw [escaped_cons, shape]; rfl, rest⟩
    · have shape : escapedChar d = [d] := by simp [escapedChar, special]
      rw [shape] at same
      cases own with
      | nil =>
        obtain ⟨rfl, others⟩ := List.cons.inj same
        exact ⟨[], source, rfl, rfl, others.symm⟩
      | cons a own =>
        obtain ⟨rfl, others⟩ := List.cons.inj same
        obtain ⟨front, back, rfl, rfl, rest⟩ := inductionHypothesis others
        exact ⟨d :: front, back, rfl, by rw [escaped_cons, shape]; rfl, rest⟩

/-- Nothing is escaped just if there is nothing. -/
theorem eq_nil_of_escaped {text : List Char} (none : escaped text = []) : text = [] := by
  cases text with
  | nil => rfl
  | cons c text =>
    rw [escaped_cons, escapedChar] at none
    split at none <;> cases none

/-- Blanks in an escaped text are those of the text. -/
theorem exists_escaped_append {source own blanks rest : List Char}
    (same : escaped source = own ++ (blanks ++ rest)) (blank : AreBlank blanks)
    (filled : blanks ≠ []) :
    ∃ front back, source = front ++ (blanks ++ back) ∧ own = escaped front ∧
      rest = escaped back := by
  induction blanks generalizing source own with
  | nil => exact absurd rfl filled
  | cons c blanks inductionHypothesis =>
    obtain ⟨first, others⟩ := List.forall_mem_cons.mp blank
    obtain ⟨front, back, rfl, rfl, later⟩ := exists_escaped_cons same first
    by_cases none : blanks = []
    · subst none
      exact ⟨front, back, rfl, rfl, later⟩
    · obtain ⟨start, stop, rfl, empty, rest⟩ :=
        @inductionHypothesis back [] later.symm others none
      obtain rfl := eq_nil_of_escaped empty.symm
      exact ⟨front, stop, rfl, rfl, rest⟩

/-- An escaped text is read as it is. -/
theorem literal?_escaped {text : List Char} (whole : '\n' ∉ text) (rest : List Char) :
    literal? (escaped text ++ rest) = readBehind text (literal? rest) := by
  induction text with
  | nil => cases read : literal? rest <;> simp [escaped, readBehind, read]
  | cons c text inductionHypothesis =>
    have later := inductionHypothesis (List.not_mem_of_not_mem_cons whole)
    have line : c ≠ '\n' := (List.ne_of_not_mem_cons whole).symm
    have split : c :: text = [c] ++ text := rfl
    rw [split, readBehind_append, ← split, escaped_cons, List.append_assoc, ← later]
    unfold escapedChar
    by_cases slash : c = '\\'
    · subst slash
      exact literal?_escape _
    · by_cases quote : c = '"'
      · subst quote
        exact literal?_escape _
      · simpa [slash, quote] using literal?_cons quote line slash (escaped text ++ rest)

/-- The first character of a text counts by itself. -/
theorem length_visible_cons (c : Char) (text : List Char) :
    (visible (c :: text)).length = (visible [c]).length + (visible text).length := by
  rw [← List.singleton_append, visible_append, List.length_append]

/-- A character has at least as many visible ones in a literal, and more if it is escaped. -/
theorem length_visible_escaped_cons (c : Char) (text : List Char) :
    (visible (escaped (c :: text))).length =
      (visible [c]).length + (if c = '\\' ∨ c = '"' then 1 else 0) +
        (visible (escaped text)).length := by
  rw [escaped_cons, visible_append, List.length_append, escapedChar]
  by_cases special : c = '\\' ∨ c = '"'
  · have added : visible ['\\', c] = '\\' :: visible [c] := by
      rw [visible_cons, if_neg (by decide)]
      rfl
    simp [special, added]
  · simp [special]

/-- An escaped text has more visible characters if it needs escapes. -/
theorem length_visible_lt {text : List Char} (special : '\\' ∈ text ∨ '"' ∈ text) :
    (visible text).length < (visible (escaped text)).length := by
  have least (text : List Char) : (visible text).length ≤ (visible (escaped text)).length := by
    induction text with
    | nil => exact Nat.le_refl _
    | cons c text inductionHypothesis =>
      rw [length_visible_escaped_cons, length_visible_cons c text]
      omega
  induction text with
  | nil => simp at special
  | cons c text inductionHypothesis =>
    rw [length_visible_escaped_cons, length_visible_cons c text]
    by_cases own : c = '\\' ∨ c = '"'
    · have others := least text
      rw [if_pos own]
      omega
    · have later := inductionHypothesis (special.imp
        (fun member => (List.mem_cons.mp member).resolve_left fun same => own (Or.inl same.symm))
        fun member => (List.mem_cons.mp member).resolve_left fun same => own (Or.inr same.symm))
      omega

/-- What has been read of a text, up to the quote that ends the literal: no fewer visible characters
than what it stands for has when it is escaped. -/
theorem literal?_consumes {text read after : List Char}
    (found : literal? text = some (read, after)) :
    ∃ consumed, text = consumed ++ '"' :: after ∧ '\n' ∉ consumed ∧
      (visible (escaped read)).length ≤ (visible consumed).length := by
  fun_induction literal? text generalizing read after with
  | case1 => cases found
  | case2 rest =>
    obtain ⟨rfl, rfl⟩ : [] = read ∧ rest = after := by simpa using found
    exact ⟨[], rfl, List.not_mem_nil, Nat.le_refl _⟩
  | case3 => cases found
  | case4 => cases found
  | case5 rest meant behind escape _ _ inductionHypothesis =>
    obtain ⟨⟨text, _⟩, later, same⟩ := Option.map_eq_some_iff.mp found
    obtain ⟨rfl, rfl⟩ : meant :: text = read ∧ _ = after := by simpa using same
    obtain ⟨consumed, rfl, whole, few⟩ := inductionHypothesis later
    obtain ⟨code, rfl, nonempty, seen⟩ := escape?_suffix escape
    have shown : visible ('\\' :: (code ++ consumed)) = '\\' :: (code ++ visible consumed) := by
      have own : visible code = code :=
        List.filter_eq_self.mpr fun letter member => by simp [(seen letter member).1]
      rw [visible_cons, if_neg (by decide), visible_append, own]
      rfl
    have long := List.length_pos_of_ne_nil nonempty
    have one : (visible [meant]).length ≤ 1 := List.length_filter_le _ _
    refine ⟨'\\' :: (code ++ consumed), by simp, ?_, ?_⟩
    · simp only [List.mem_cons, List.mem_append, not_or]
      exact ⟨by decide, fun member => (seen _ member).2 rfl, whole⟩
    · rw [length_visible_escaped_cons, shown, List.length_cons, List.length_append]
      split <;> omega
  | case6 c rest quote line slash inductionHypothesis =>
    obtain ⟨⟨text, _⟩, later, same⟩ := Option.map_eq_some_iff.mp found
    obtain ⟨rfl, rfl⟩ : c :: text = read ∧ _ = after := by simpa using same
    obtain ⟨consumed, rfl, whole, few⟩ := inductionHypothesis later
    refine ⟨c :: consumed, rfl, List.not_mem_cons_of_ne_of_not_mem (Ne.symm line) whole, ?_⟩
    rw [length_visible_escaped_cons, if_neg (by simp [slash, quote]),
      length_visible_cons c consumed]
    omega

/-- A literal ends at its last quote at the latest. -/
theorem literal?_of_closed {text read after content back rest : List Char}
    (found : literal? text = some (read, after))
    (whole : text = content ++ '"' :: (back ++ '\n' :: rest)) (clean : '"' ∉ back) :
    (visible (escaped read)).length ≤ (visible content).length := by
  obtain ⟨consumed, same, line, few⟩ := literal?_consumes found
  rw [whole] at same
  refine few.trans ?_
  rcases List.append_eq_append_iff.mp same with ⟨more, rfl, quote⟩ | ⟨more, rfl, -⟩
  · -- What is read would go on behind the quote and end within the line.
    cases more with
    | nil => simp
    | cons c more =>
      obtain ⟨rfl, later⟩ := List.cons.inj quote
      rcases List.append_eq_append_iff.mp later with ⟨other, rfl, ends⟩ | ⟨other, rfl, ends⟩
      · cases other with
        | nil => simp at ends
        | cons d other =>
          obtain ⟨rfl, -⟩ := List.cons.inj ends
          simp at line
      · cases other with
        | nil => simp at ends
        | cons d other =>
          obtain ⟨rfl, -⟩ := List.cons.inj ends
          simp at clean
  · rw [visible_append, List.length_append]
    exact Nat.le_add_right _ _

/-- A literal ends on its line. -/
theorem literal?_of_open {text read after content rest : List Char}
    (found : literal? text = some (read, after)) (whole : text = content ++ '\n' :: rest) :
    (visible (escaped read)).length < (visible content).length := by
  obtain ⟨consumed, same, line, few⟩ := literal?_consumes found
  rw [whole] at same
  refine few.trans_lt ?_
  rcases List.append_eq_append_iff.mp same with ⟨more, rfl, ends⟩ | ⟨more, rfl, ends⟩
  · cases more with
    | nil => simp at ends
    | cons c more =>
      obtain ⟨rfl, -⟩ := List.cons.inj ends
      simp at line
  · cases more with
    | nil => simp at ends
    | cons c more =>
      obtain ⟨rfl, -⟩ := List.cons.inj ends
      have quote : (visible ['"']).length = 1 := by decide
      rw [visible_append, List.length_append, length_visible_cons, quote]
      omega

namespace Widened

/-- No tab is left. -/
theorem no_tab {text wide : List Char} (widened : Widened text wide) : '\t' ∉ wide := by
  induction widened with
  | nil => exact List.not_mem_nil
  | tab gap rest inductionHypothesis =>
    rw [List.mem_append, not_or]
    exact ⟨fun member => absurd (List.eq_of_mem_replicate member) (by decide),
      inductionHypothesis⟩
  | other noTab rest inductionHypothesis =>
    exact List.not_mem_cons_of_ne_of_not_mem (Ne.symm noTab) inductionHypothesis

/-- The visible characters stay. -/
theorem visible_eq {text wide : List Char} (widened : Widened text wide) :
    visible wide = visible text := by
  induction widened with
  | nil => rfl
  | tab gap rest inductionHypothesis =>
    rw [visible_append, visible_eq_nil (areBlank_replicate gap), inductionHypothesis, visible_cons,
      if_pos (by decide)]
  | other noTab rest inductionHypothesis =>
    rw [visible_cons, visible_cons, inductionHypothesis]

/-- A text can be escaped before or after its tabs give way. -/
theorem exists_escaped {text wide : List Char} (widened : Widened (escaped text) wide) :
    ∃ source, wide = escaped source ∧ Widened text source := by
  induction text generalizing wide with
  | nil =>
    cases widened
    exact ⟨[], rfl, .nil⟩
  | cons c text inductionHypothesis =>
    rw [escaped_cons] at widened
    obtain ⟨front, back, rfl, own, others⟩ := widened.exists_append
    obtain ⟨source, rfl, rest⟩ := inductionHypothesis others
    by_cases tab : c = '\t'
    · subst tab
      cases own with
      | @tab gap _ _ none =>
        cases none
        refine ⟨List.replicate gap ' ' ++ source, ?_, .tab gap rest⟩
        have clean : ∀ c ∈ ['\\', '"'], c ∉ List.replicate gap ' ' := by
          intro c listed member
          rw [List.eq_of_mem_replicate member] at listed
          exact absurd listed (by decide)
        rw [escaped_append, escaped_eq (clean _ (by simp)) (clean _ (by simp)), List.append_nil]
      | other noTab => exact absurd rfl noTab
    · have clean : '\t' ∉ escapedChar c := by
        unfold escapedChar
        split <;> simp [Ne.symm tab]
      exact ⟨c :: source, by rw [own.eq_of_no_tab clean, escaped_cons], .other tab rest⟩

end Widened

end EncoderTables.Text
