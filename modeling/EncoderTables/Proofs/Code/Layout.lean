import EncoderTables.Code.Printer

/-!
# Laid out code

Code with a whole line in it leaves a text behind when it is laid out: whatever a printer
has written stays, and every line that it writes ends with a line feed.
-/

namespace EncoderTables

namespace Text

end Text

namespace Code

namespace Printer

end Printer

end Code

end EncoderTables
