import EncoderTables.Text.Quoted
import EncoderTables.Text.Tabs
import Mathlib.Algebra.Group.Nat.Defs
import Mathlib.Data.List.TakeWhile

/-!
# Reading texts

What is written without a separator ends at the separator, a hexadecimal number is known by
its digits, and a quoted text ends where its quote stands without a backslash. Inside it every
character shows which one it is: an escape by the letter behind the backslash, a number by
its fixed count of digits. So each of them is read back in only one way, whatever follows.
-/

namespace EncoderTables.Text

/-- Texts without a separator are found again before it. -/
theorem eq_of_separated {separator : Char} {first second rest others : List Char}
    (one : separator ∉ first) (two : separator ∉ second)
    (same : first ++ separator :: rest = second ++ separator :: others) :
    first = second ∧ rest = others := by
  have parts := congrArg (cutAt separator) same
  rw [cutAt_append _ _ _ one, cutAt_append _ _ _ two] at parts
  obtain rfl := (List.cons.inj parts).1
  exact ⟨rfl, (List.cons.inj (List.append_cancel_left same)).2⟩

/-- What is written with characters of one kind ends where another kind follows. -/
theorem eq_of_span {kind : Char → Bool} {first second rest others : List Char}
    (one : ∀ c ∈ first, kind c = true) (two : ∀ c ∈ second, kind c = true)
    (stop : ∀ c ∈ rest.head?, kind c = false) (stopToo : ∀ c ∈ others.head?, kind c = false)
    (same : first ++ rest = second ++ others) : first = second ∧ rest = others := by
  have split {row tail : List Char} (each : ∀ c ∈ row, kind c = true)
      (ends : ∀ c ∈ tail.head?, kind c = false) :
      (row ++ tail).takeWhile kind = row ∧ (row ++ tail).dropWhile kind = tail := by
    rw [List.takeWhile_append_of_pos each, List.dropWhile_append_of_pos each]
    cases tail with
    | nil => simp
    | cons c tail =>
      have other : kind c = false := ends c rfl
      simp [other]
  obtain ⟨row, behind⟩ := split one stop
  obtain ⟨rowToo, behindToo⟩ := split two stopToo
  rw [same] at row behind
  exact ⟨row.symm.trans rowToo, behind.symm.trans behindToo⟩

/-- The value of a hexadecimal digit. -/
def hexDigitValue (c : Char) : Nat := if c.isDigit then c.toNat - 48 else c.toNat - 87

/-- The number that hexadecimal digits denote. -/
def hexValue (digits : List Char) : Nat :=
  digits.foldl (fun value c => 16 * value + hexDigitValue c) 0

/-- Each hexadecimal digit has its value. -/
theorem hexDigitValue_digitChar {n : Nat} (digit : n < 16) : hexDigitValue n.digitChar = n := by
  have checked : ∀ n < 16, hexDigitValue n.digitChar = n := by decide
  exact checked n digit

/-- A further digit counts the digits before it sixteen times. -/
theorem hexValue_concat (digits : List Char) (c : Char) :
    hexValue (digits ++ [c]) = 16 * hexValue digits + hexDigitValue c := by
  simp [hexValue]

/-- The digits of a number denote it. -/
theorem hexValue_toDigits (n : Nat) : hexValue (Nat.toDigits 16 n) = n := by
  induction n using Nat.strongRecOn with
  | _ n inductionHypothesis =>
    by_cases small : n < 16
    · rw [Nat.toDigits_of_lt_base small]
      simpa [hexValue] using hexDigitValue_digitChar small
    · rw [Nat.toDigits_of_base_le (by decide) (by omega), hexValue_concat,
        inductionHypothesis (n / 16) (by omega), hexDigitValue_digitChar (by omega)]
      omega

/-- Zeros at the front do not change the number. -/
theorem hexValue_replicate (count : Nat) (digits : List Char) :
    hexValue (List.replicate count '0' ++ digits) = hexValue digits := by
  induction count with
  | zero => rfl
  | succ count inductionHypothesis =>
    have zero : 16 * 0 + hexDigitValue '0' = 0 := by decide
    rw [← inductionHypothesis, List.replicate_succ, List.cons_append, hexValue,
      List.foldl_cons, zero, hexValue]

/-- The hexadecimal digits of a number are digits of numbers below sixteen. -/
theorem mem_hexDigits {c : Char} {n : Nat} (member : c ∈ Nat.toDigits 16 n) :
    ∃ digit < 16, c = digit.digitChar := by
  induction n using Nat.strongRecOn with
  | _ n inductionHypothesis =>
    by_cases small : n < 16
    · rw [Nat.toDigits_of_lt_base small, List.mem_singleton] at member
      exact ⟨n, small, member⟩
    · rw [Nat.toDigits_of_base_le (by decide) (by omega), List.mem_append,
        List.mem_singleton] at member
      rcases member with early | last
      · exact inductionHypothesis (n / 16) (by omega) early
      · exact ⟨n % 16, by omega, last⟩

/-- A number is known by its hexadecimal digits. -/
theorem hexDigits_injective : Function.Injective (Nat.toDigits 16) := by
  intro first second same
  rw [← hexValue_toDigits first, same, hexValue_toDigits]

/-- Filled digits denote the number as well. -/
theorem hexValue_paddedHex (width n : Nat) : hexValue (paddedHex width n) = n := by
  simp only [paddedHex, hexValue_replicate, hexValue_toDigits]

/-- Digits are filled up to the width if the number has no more. -/
theorem length_paddedHex {width n : Nat} (positive : 0 < width) (bounded : n < 16 ^ width) :
    (paddedHex width n).length = width := by
  have short : (Nat.toDigits 16 n).length ≤ width :=
    (Nat.length_toDigits_le_iff (by decide) positive).mpr bounded
  simp only [paddedHex, List.length_append, List.length_replicate]
  omega

/-- Digits filled up to the same width are read in one way, whatever follows them. -/
theorem paddedHex_append {width first second : Nat} {rest others : List Char}
    (positive : 0 < width) (one : first < 16 ^ width) (two : second < 16 ^ width)
    (same : paddedHex width first ++ rest = paddedHex width second ++ others) :
    first = second ∧ rest = others := by
  have lengths : (paddedHex width first).length = (paddedHex width second).length := by
    rw [length_paddedHex positive one, length_paddedHex positive two]
  obtain ⟨digits, behind⟩ := List.append_inj same lengths
  have values := congrArg hexValue digits
  rw [hexValue_paddedHex, hexValue_paddedHex] at values
  exact ⟨values, behind⟩

/-- The two quotes. -/
def IsQuote (quote : Char) : Prop := quote = '\x27' ∨ quote = '"'

/-- A text stands between quotes. -/
theorem isQuote_quoteFor (text : List Char) : IsQuote (quoteFor text) := by
  unfold quoteFor
  split
  · exact Or.inr rfl
  · exact Or.inl rfl

/-- Codes are below the numbers of eight digits. -/
theorem toNat_lt_digits (c : Char) : c.toNat < 16 ^ 8 := by
  have bound : c.toNat < 1114112 := by
    rcases c.valid with low | high
    · exact Nat.lt_trans low (by decide)
    · exact high.2
  omega

/-- How a character is shown between quotes: as itself, or behind a backslash by itself, by
the letter of a control or by its code. -/
inductive Spelling (quote c : Char) : List Char → Prop where
  | plain (noQuote : c ≠ quote) (noBackslash : c ≠ '\\') : Spelling quote c [c]
  | escaped (special : c = '\\' ∨ c = quote) : Spelling quote c ['\\', c]
  | lineFeed (code : c = '\n') : Spelling quote c ['\\', 'n']
  | carriageReturn (code : c = '\r') : Spelling quote c ['\\', 'r']
  | tab (code : c = '\t') : Spelling quote c ['\\', 't']
  | short (bound : c.toNat < 16 ^ 2) : Spelling quote c ('\\' :: 'x' :: paddedHex 2 c.toNat)
  | medium (bound : c.toNat < 16 ^ 4) : Spelling quote c ('\\' :: 'u' :: paddedHex 4 c.toNat)
  | long (bound : c.toNat < 16 ^ 8) : Spelling quote c ('\\' :: 'U' :: paddedHex 8 c.toNat)

/-- Each character is shown in one of these ways. -/
theorem spelling_quoteChar (quote c : Char) : Spelling quote c (quoteChar quote c) := by
  unfold quoteChar
  simp only [Bool.or_eq_true, decide_eq_true_eq]
  split
  · next special => exact .escaped special
  · next ordinary =>
    rw [not_or] at ordinary
    split
    · next code => exact .lineFeed code
    · split
      · next code => exact .carriageReturn code
      · split
        · next code => exact .tab code
        · split
          · exact .plain ordinary.2 ordinary.1
          · split
            · next bound => exact .short bound
            · split
              · next bound => exact .medium bound
              · exact .long (toNat_lt_digits c)

/-- The spellings of two characters are told apart, whatever follows them. -/
theorem Spelling.eq {quote first second : Char} {one two rest others : List Char}
    (isQuote : IsQuote quote) (left : Spelling quote first one)
    (right : Spelling quote second two) (same : one ++ rest = two ++ others) :
    first = second ∧ rest = others := by
  have letters : quote ≠ 'n' ∧ quote ≠ 'r' ∧ quote ≠ 't' ∧ quote ≠ 'x' ∧ quote ≠ 'u' ∧
      quote ≠ 'U' := by
    rcases isQuote with rfl | rfl <;> decide
  have code {width : Nat} (positive : 0 < width) (low : first.toNat < 16 ^ width)
      (high : second.toNat < 16 ^ width)
      (digits : paddedHex width first.toNat ++ rest = paddedHex width second.toNat ++ others) :
      first = second ∧ rest = others :=
    (paddedHex_append positive low high digits).imp_left Char.toNat_inj.mp
  cases left <;> cases right <;>
    simp only [List.cons_append, List.nil_append, List.cons.injEq] at same <;>
    grind

/-- A spelling does not start with the quote. -/
theorem Spelling.ne_quote {quote c : Char} {shown rest others : List Char}
    (isQuote : IsQuote quote) (spelling : Spelling quote c shown) :
    shown ++ rest ≠ quote :: others := by
  have backslash : quote ≠ '\\' := by
    rcases isQuote with rfl | rfl <;> decide
  cases spelling <;> simp only [List.cons_append, ne_eq, List.cons.injEq] <;> grind

/-- Characters up to the quote are read in one way, whatever follows it. -/
theorem spelled_append {quote : Char} (isQuote : IsQuote quote) {spell : Char → List Char}
    (spelled : ∀ c, Spelling quote c (spell c)) {first second : List Char}
    {rest others : List Char}
    (same : first.flatMap spell ++ quote :: rest = second.flatMap spell ++ quote :: others) :
    first = second ∧ rest = others := by
  induction first generalizing second with
  | nil =>
    cases second with
    | nil => exact ⟨rfl, (List.cons.inj same).2⟩
    | cons other later =>
      rw [List.flatMap_cons, List.append_assoc] at same
      exact absurd same.symm ((spelled other).ne_quote isQuote)
  | cons c early inductionHypothesis =>
    rw [List.flatMap_cons, List.append_assoc] at same
    cases second with
    | nil => exact absurd same ((spelled c).ne_quote isQuote)
    | cons other later =>
      rw [List.flatMap_cons, List.append_assoc] at same
      obtain ⟨heads, tails⟩ := (spelled c).eq isQuote (spelled other) same
      obtain ⟨further, behind⟩ := inductionHypothesis tails
      exact ⟨congrArg₂ List.cons heads further, behind⟩

/-- A quoted text is its quote, its characters and the quote again. -/
theorem toList_quoted (text : String) :
    (quoted text).toList = quoteFor text.toList ::
      (text.toList.flatMap (quoteChar (quoteFor text.toList)) ++ [quoteFor text.toList]) := by
  simp [quoted]

/-- A quoted text is read in one way, whatever follows it. -/
theorem quoted_append {first second : String} {rest others : List Char}
    (same : (quoted first).toList ++ rest = (quoted second).toList ++ others) :
    first = second ∧ rest = others := by
  simp only [toList_quoted, List.cons_append, List.append_assoc, List.nil_append,
    List.cons.injEq] at same
  obtain ⟨quotes, inside⟩ := same
  rw [← quotes] at inside
  obtain ⟨letters, behind⟩ := spelled_append (isQuote_quoteFor first.toList)
    (spelling_quoteChar (quoteFor first.toList)) inside
  exact ⟨String.toList_inj.mp letters, behind⟩

/-- The letters of separated texts are those of the texts and of the separator. -/
theorem mem_intercalate {c : Char} {row : String} {texts : List String}
    (member : c ∈ (row.intercalate texts).toList) :
    c ∈ row.toList ∨ ∃ text ∈ texts, c ∈ text.toList := by
  induction texts with
  | nil => simp at member
  | cons first rest inductionHypothesis =>
    cases rest with
    | nil => exact Or.inr ⟨first, List.mem_singleton_self _, by simpa using member⟩
    | cons second rest =>
      rw [String.intercalate_cons_cons, String.toList_append, String.toList_append,
        List.mem_append, List.mem_append] at member
      rcases member with (own | between) | later
      · exact Or.inr ⟨first, List.mem_cons_self, own⟩
      · exact Or.inl between
      · exact (inductionHypothesis later).imp_right fun ⟨text, listed, inside⟩ =>
          ⟨text, List.mem_cons_of_mem _ listed, inside⟩

end EncoderTables.Text
