/-!
# Blank characters and trimming

A character is blank when it separates words: the ASCII control blanks, the four
information separators, and the spaces and line ends of the wider character set.
Zero-width characters are not blank. Trimming removes blanks from both ends only.
-/

namespace EncoderTables.Text

/-- The blank characters, given as closed ranges of code points. -/
def blankRanges : List (Nat × Nat) :=
  [(0x09, 0x0d), (0x1c, 0x20), (0x85, 0x85), (0xa0, 0xa0), (0x1680, 0x1680),
   (0x2000, 0x200a), (0x2028, 0x2029), (0x202f, 0x202f), (0x205f, 0x205f), (0x3000, 0x3000)]

/-- True when some closed range holds the code point. -/
def inRanges (ranges : List (Nat × Nat)) (code : Nat) : Bool :=
  ranges.any fun range => range.1 ≤ code && code ≤ range.2

/-- A blank separates words and is dropped at the ends of a trimmed text. -/
def isBlank (c : Char) : Bool := inRanges blankRanges c.toNat

/-- The text from its first character that is not blank. -/
def trimStart (text : List Char) : List Char := text.dropWhile isBlank

/-- The text up to its last character that is not blank. -/
def trimEnd (text : List Char) : List Char := (text.reverse.dropWhile isBlank).reverse

/-- The text between its outermost characters that are not blank. -/
def trim (text : List Char) : List Char := trimEnd (trimStart text)

/-- Trimming never lengthens a text. -/
theorem trim_length_le (text : List Char) : (trim text).length ≤ text.length := by
  have start : (trimStart text).length ≤ text.length := (List.dropWhile_sublist _).length_le
  have stop : (trimEnd (trimStart text)).length ≤ (trimStart text).length := by
    simpa [trimEnd] using
      (List.dropWhile_sublist (l := (trimStart text).reverse) isBlank).length_le
  exact Nat.le_trans stop start

end EncoderTables.Text
