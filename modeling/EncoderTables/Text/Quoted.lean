import EncoderTables.Text.Number
import EncoderTables.Text.Printable

/-!
# Quoted text

Names inside encodings and messages are shown quoted. The quote is a single one
unless the text holds a single quote and no double one. The backslash, the chosen
quote and the three common controls are escaped by a letter, other characters that do
not print by their number.
-/

namespace EncoderTables.Text

/-- The quote that encloses a text: single unless only a double one avoids escapes. -/
def quoteFor (text : List Char) : Char :=
  if text.contains '\x27' && !text.contains '"' then '"' else '\x27'

/-- One character inside a text enclosed by the given quote. -/
def quoteChar (quote c : Char) : List Char :=
  if c = '\\' || c = quote then ['\\', c]
  else if c = '\n' then ['\\', 'n']
  else if c = '\r' then ['\\', 'r']
  else if c = '\t' then ['\\', 't']
  else if isPrintable c then [c]
  else if c.toNat < 0x100 then ['\\', 'x'] ++ paddedHex 2 c.toNat
  else if c.toNat < 0x10000 then ['\\', 'u'] ++ paddedHex 4 c.toNat
  else ['\\', 'U'] ++ paddedHex 8 c.toNat

/-- A text between quotes, with escapes where a character could be misread. -/
def quoted (text : String) : String :=
  let quote := quoteFor text.toList
  String.ofList (quote :: text.toList.flatMap (quoteChar quote) ++ [quote])

/-- A bracketed list of quoted names. -/
def quotedList (names : List String) : String :=
  "[" ++ ", ".intercalate (names.map quoted) ++ "]"

end EncoderTables.Text
