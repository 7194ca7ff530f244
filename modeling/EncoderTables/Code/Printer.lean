import EncoderTables.Code.Wrap
import EncoderTables.Failure
import EncoderTables.Text.Tabs

/-!
# Code printer

A printer lays code out as it arrives in chunks. Only whole lines are written, the rest
waits in a buffer. Lines are stripped and indented anew by the nesting of braces: a line
that starts or ends with a closing brace ends a level, one that ends with an opening
brace starts one. Directives stay in the first column, and long lines are wrapped.
-/

namespace EncoderTables.Code

/-- A piece of code with the character at which its long lines are preferably broken,
and the leader of all its lines but the first. -/
structure Chunk where
  text : String
  split : Option Char
  leader : String
  deriving DecidableEq, Repr

namespace Chunk

/-- Code without a leader that is broken at blanks. -/
def plain (text : String) : Chunk := ⟨text, some ' ', ""⟩

/-- Code that is preferably broken at commas. -/
def list (text : String) : Chunk := ⟨text, some ',', ""⟩

/-- Lines of a comment behind its first. -/
def comment (leader text : String) : Chunk := ⟨text, some ' ', leader⟩

/-- The text of several chunks without any layout. -/
def join (chunks : List Chunk) : String := String.join (chunks.map (·.text))

end Chunk

/-- What has been written, the nesting depth of the next line, and the incomplete line
that waits for its end. -/
structure Printer where
  output : String
  depth : Nat
  buffer : List Char
  deriving DecidableEq, Repr

namespace Printer

/-- A printer that has written nothing. -/
def start : Printer := ⟨"", 0, []⟩

/-- A line that ends a nesting level. -/
def closes (line : List Char) : Bool :=
  line.head? == some '\x7d' || line.getLast? == some '\x7d'

/-- A line that starts a nesting level. -/
def opens (line : List Char) : Bool := line.getLast? == some '\x7b'

/-- The depth at which a line stands, given the depth behind the line before it. -/
def lineDepth (depth : Nat) (line : List Char) : Nat := if closes line then depth - 1 else depth

/-- The blanks in front of a line. -/
def margin (page : Page) (depth : Nat) (line : List Char) : List Char :=
  if isDirective line then [] else List.replicate (depth * page.indent) ' '

/-- The text of several lines. -/
def ended (lines : List (List Char)) : String :=
  String.join (lines.map fun line => String.ofList line ++ "\n")

/-- Write one whole line; `lead` stands in front of it unless it is empty. -/
def putLine (page : Page) (split : Option Char) (leader lead : List Char) (printer : Printer)
    (raw : List Char) : Printer :=
  let stripped := Text.trim raw
  let depth := lineDepth printer.depth stripped
  if stripped.isEmpty then { printer with output := printer.output ++ "\n", depth := depth }
  else
    let line := lead ++ stripped
    { printer with
      output := printer.output ++
        ended (wrap page split leader (margin page depth line) line)
      depth := if opens line then depth + 1 else depth }

/-- Write the whole lines of a chunk; the leader stands in front of all but the first. -/
def putLines (page : Page) (split : Option Char) (leader : List Char) (printer : Printer) :
    List (List Char) → Printer
  | [] => printer
  | first :: rest =>
    rest.foldl (putLine page split leader leader) (putLine page split leader [] printer first)

/-- Write a chunk behind what waits in the buffer. -/
def write (page : Page) (printer : Printer) (chunk : Chunk) : Printer :=
  let parts := Text.cutAt '\n' (printer.buffer ++ Text.expandTabs page.indent chunk.text.toList)
  let written := putLines page chunk.split chunk.leader.toList printer parts.dropLast
  { written with buffer := parts.getLastD [] }

/-- Write several chunks one after the other. -/
def writeAll (page : Page) (printer : Printer) (chunks : List Chunk) : Printer :=
  chunks.foldl (write page) printer

/-- Write the incomplete line as it is. -/
def flush (printer : Printer) : Printer :=
  { printer with output := printer.output ++ String.ofList printer.buffer, buffer := [] }

end Printer

/-- The least width of a line for a printer. -/
def leastWidth : Int := 20

/-- The page of given dimensions; the lines must not be too short. A width of
indentation below zero counts as zero. -/
def Page.make (indent width : Int) : Except Failure Page :=
  if width < leastWidth then refuse .lineTooShort else .ok ⟨indent.toNat, width.toNat⟩

/-- The text of chunks laid out on a page by a fresh printer. -/
def layOut (page : Page) (chunks : List Chunk) : String :=
  ((Printer.start.writeAll page chunks).flush).output

end EncoderTables.Code
