import EncoderTables.Text.Blank

/-!
# Wrapping of code lines

A line longer than the page is broken at a preferred character or at a blank: near the
end of the page if there is such a place, else at the first one behind it. A character
between single quotes is no place to break. Every continuation starts with a lead that
depends on the line: a comment repeats its leader, other code gets one more indentation.
Broken directives and string literals are continued with a backslash.
-/

namespace EncoderTables.Code

/-- The dimensions of a page: the width of one indentation level and that of a line. -/
structure Page where
  indent : Nat
  width : Nat
  deriving DecidableEq, Repr

/-- The characters in the place of which a line may be broken, the preferred one first. -/
def breakChars : Option Char → List Char
  | none => [' ']
  | some c => if c = ' ' then [' '] else [c, ' ']

/-- A position behind the first character may be a break when it holds the character
and no single quote stands before it. -/
def breaks (text : List Char) (c : Char) (pos : Nat) : Bool :=
  text[pos]? == some c && text[pos - 1]? != some '\x27'

/-- How far before the page width a break is looked for first. -/
def lookBack : Nat := 8

/-- The positions near the page width, the farthest first, all behind `start`. -/
def nearPositions (width start : Nat) : List Nat :=
  let low := max (width - lookBack) start
  (List.range' (low + 1) (width - low)).reverse

/-- The positions behind the page width and behind `start`, the nearest first. -/
def farPositions (length width start : Nat) : List Nat :=
  let low := max width start
  List.range' (low + 1) (length - (low + 1))

/-- The first position that is a break, for the first character that has one. -/
def firstBreak (text : List Char) (positions : List Nat) (chars : List Char) : Option Nat :=
  chars.findSome? fun c => positions.find? (breaks text c)

/-- The position where a text is broken, if there is any behind `start`. -/
def breakAt? (text : List Char) (width : Nat) (split : Option Char) (start : Nat) :
    Option Nat :=
  match firstBreak text (nearPositions width start) (breakChars split) with
  | some pos => some pos
  | none => firstBreak text (farPositions text.length width start) (breakChars split)

/-- A first break is one of the positions and a break for one of the characters. -/
theorem of_firstBreak {text : List Char} {positions : List Nat} {chars : List Char}
    {pos : Nat} (found : firstBreak text positions chars = some pos) :
    pos ∈ positions ∧ ∃ c ∈ chars, breaks text c pos = true := by
  obtain ⟨c, member, hit⟩ := List.exists_of_findSome?_eq_some found
  exact ⟨List.mem_of_find?_eq_some hit, c, member, List.find?_some hit⟩

/-- The near positions lie behind `start`. -/
theorem lt_of_mem_nearPositions {width start pos : Nat}
    (member : pos ∈ nearPositions width start) : start < pos := by
  simp only [nearPositions, List.mem_reverse, List.mem_range'_1] at member
  omega

/-- The far positions lie behind `start`. -/
theorem lt_of_mem_farPositions {length width start pos : Nat}
    (member : pos ∈ farPositions length width start) : start < pos := by
  simp only [farPositions, List.mem_range'_1] at member
  omega

/-- A break lies inside the text. -/
theorem breaks_lt_length {text : List Char} {c : Char} {pos : Nat}
    (hit : breaks text c pos = true) : pos < text.length := by
  simp only [breaks, Bool.and_eq_true, beq_iff_eq] at hit
  exact (List.getElem?_eq_some_iff.mp hit.1).1

/-- A text is broken behind `start` and before its end. -/
theorem breakAt?_bounds {text : List Char} {width start pos : Nat} {split : Option Char}
    (found : breakAt? text width split start = some pos) :
    start < pos ∧ pos < text.length := by
  unfold breakAt? at found
  split at found
  · rename_i near hit
    obtain rfl : near = pos := Option.some.inj found
    obtain ⟨member, c, _, isHit⟩ := of_firstBreak hit
    exact ⟨lt_of_mem_nearPositions member, breaks_lt_length isHit⟩
  · obtain ⟨member, c, _, isHit⟩ := of_firstBreak found
    exact ⟨lt_of_mem_farPositions member, breaks_lt_length isHit⟩

/-- What a continued piece ends with. -/
inductive Ending where
  | directive
  | literal
  | plain
  deriving DecidableEq, Repr

/-- The text of an ending. -/
def Ending.text : Ending → List Char
  | .directive => [' ', '\\']
  | .literal => ['\\']
  | .plain => []

/-- A directive starts with a number sign. -/
def isDirective (line : List Char) : Bool := line.head? == some '#'

/-- The part of a text up to a break. The character at the break stays unless it is a
blank. -/
def keptUpTo (text : List Char) (pos : Nat) : List Char :=
  text.take pos ++ (text.drop pos).take (if text[pos]? = some ' ' then 0 else 1)

/-- True when a text holds an odd number of double quotes, so that a literal opens or
closes in it. -/
def togglesLiteral (text : List Char) : Bool := text.count '"' % 2 == 1

/-- Break a line, of which the first piece starts with `lead` and all others with
`next`, into the pieces to be written. `inLiteral` tells whether a string literal is
open at its start. -/
def wrapFrom (page : Page) (split : Option Char) (directive : Bool) (next : List Char)
    (inLiteral : Bool) (lead body : List Char) : List (List Char) :=
  let text := lead ++ body
  if text.length ≤ page.width then [text]
  else
    match found : breakAt? text page.width split lead.length with
    | none => [text]
    | some pos =>
      let kept := keptUpTo text pos
      let stillOpen := inLiteral != togglesLiteral kept
      let ending := if directive then Ending.directive else if stillOpen then .literal else .plain
      (kept ++ ending.text) ::
        wrapFrom page split directive next stillOpen next
          (Text.trim (body.drop (pos + 1 - lead.length)))
  termination_by body.length
  decreasing_by
    have bounds := breakAt?_bounds found
    have shorter := Text.trim_length_le (body.drop (pos + 1 - lead.length))
    simp only [text, List.length_append, List.length_drop] at bounds shorter
    omega

/-- A line that starts with a text. -/
def startsWith (start line : List Char) : Bool := start.isPrefixOf line

/-- What the continuations of a line start with: the leader if one is given, else the
leader of the comment that the line opens, else one more indentation. -/
def continuation (page : Page) (leader margin line : List Char) : List Char :=
  if !leader.isEmpty then margin ++ leader
  else if startsWith ['/', '/'] line then margin ++ ['/', '/', ' ']
  else if startsWith ['/', '*', '*'] line then margin ++ [' ', '*', ' ', ' ']
  else margin ++ List.replicate page.indent ' '

/-- The lines to be written for a line behind a margin. When a continuation would have
no room on the page, the line stays whole. -/
def wrap (page : Page) (split : Option Char) (leader margin line : List Char) :
    List (List Char) :=
  let next := continuation page leader margin line
  if next.length ≥ page.width then [margin ++ line]
  else wrapFrom page split (isDirective line) next false margin line

end EncoderTables.Code
