import EncoderTables.Failure
import EncoderTables.Text.Digit
import EncoderTables.Text.Tabs

/-!
# Operand specifications

A specification lists operands as `name:flags` segments between semicolons. The flags
are access modes, each at most once and each optionally restricted to a closed bit
range written `[low..high]`. Blanks around segments, names and flags do not count, and
blank segments are skipped.
-/

namespace EncoderTables.Operand

/-- How an instruction accesses an operand. -/
inductive Access where
  | read | written | conditional | undefined | encoded | mnemonic
  deriving DecidableEq, Repr

namespace Access

/-- The access modes in canonical order. -/
def all : List Access := [read, written, conditional, undefined, encoded, mnemonic]

/-- The letter of an access mode. -/
def letter : Access → Char
  | read => 'r'
  | written => 'w'
  | conditional => 'c'
  | undefined => 'u'
  | encoded => 'e'
  | mnemonic => 'm'

/-- The access mode of a letter. -/
def ofLetter? (c : Char) : Option Access := all.find? fun mode => mode.letter == c

end Access

/-- A closed range of bits. -/
structure BitRange where
  low : Nat
  high : Nat
  deriving DecidableEq, Repr

/-- The bits of a status register that an instruction reads, writes and leaves
undefined, by name. -/
structure StatusUse where
  read : List String
  written : List String
  undefined : List String
  deriving DecidableEq, Repr

/-- One operand of a specification: its name, its access modes in the order given and
the bit ranges that restrict some of them. An operand that stands for a status
register also lists the bits used. -/
structure Entry where
  name : String
  flags : List Access
  ranges : List (Access × BitRange)
  status : Option StatusUse
  deriving DecidableEq, Repr

/-- The name and the letters of the access modes. -/
def Entry.text (entry : Entry) : String :=
  entry.name ++ ":" ++ String.ofList (entry.flags.map Access.letter)

/-- The range that restricts an access mode, if any. -/
def Entry.range? (entry : Entry) (mode : Access) : Option BitRange := entry.ranges.lookup mode

/-- Read a bit range at the start of a text, and what follows it. -/
def bitRange? : List Char → Option (BitRange × List Char)
  | '[' :: text =>
    let low := text.takeWhile Text.isDigit
    match text.dropWhile Text.isDigit with
    | '.' :: '.' :: text =>
      let high := text.takeWhile Text.isDigit
      match text.dropWhile Text.isDigit with
      | ']' :: rest =>
        if low.isEmpty || high.isEmpty then none
        else some (⟨Text.numeralValue low, Text.numeralValue high⟩, rest)
      | _ => none
    | _ => none
  | _ => none

/-- A bit range that was read leaves a shorter text. -/
theorem bitRange?_shorter (text rest : List Char) (range : BitRange)
    (found : bitRange? text = some (range, rest)) : rest.length < text.length := by
  have shorter (t : List Char) : (t.dropWhile Text.isDigit).length ≤ t.length :=
    (List.dropWhile_sublist _).length_le
  match text with
  | [] => simp [bitRange?] at found
  | c :: text =>
    unfold bitRange? at found
    split at found
    · next opened same =>
      obtain ⟨-, rfl⟩ := List.cons.inj same
      split at found
      · next afterLow lowEnd =>
        have first := shorter text
        rw [lowEnd] at first
        split at found
        · next afterHigh highEnd =>
          have second := shorter afterLow
          rw [highEnd] at second
          dsimp only at found
          split at found
          · simp at found
          · obtain ⟨-, rfl⟩ := Prod.mk.inj (Option.some.inj found)
            simp only [List.length_cons] at first second ⊢
            omega
        · simp at found
      · simp at found
    · simp at found

/-- Read the access modes of a flags part, given those read before, and the ranges
that restrict some of them. The segment is named in failures. -/
def readAccess (segment : String) (flags : List Access) (ranges : List (Access × BitRange)) :
    (text : List Char) → Except Cause (List Access × List (Access × BitRange))
  | [] => .ok (flags, ranges)
  | c :: text =>
    match Access.ofLetter? c with
    | none => .error (.invalidAccessFlag c segment)
    | some mode =>
      if flags.contains mode then .error (.repeatedAccessFlag c segment)
      else
        match _found : bitRange? text with
        | none => readAccess segment (flags ++ [mode]) ranges text
        | some (range, rest) =>
          if range.low > range.high then
            .error (.invalidBitRange range.low range.high segment)
          else readAccess segment (flags ++ [mode]) (ranges ++ [(mode, range)]) rest
termination_by text => text.length
decreasing_by
  · simp
  · have := bitRange?_shorter _ _ _ _found
    simp only [List.length_cons]
    omega

/-- Read a flags part. -/
def parseAccess (flags segment : String) :
    Except Cause (List Access × List (Access × BitRange)) :=
  readAccess segment [] [] flags.toList

/-- Read one trimmed segment that is not empty. -/
def parseSegment (segment : List Char) : Except Cause Entry :=
  let shown := String.ofList segment
  match segment.dropWhile (· != ':') with
  | [] => .error (.missingSeparator shown)
  | _ :: flags =>
    let name := Text.trim (segment.takeWhile (· != ':'))
    if name.isEmpty then .error (.missingOperandName shown)
    else do
      let (modes, ranges) ← readAccess shown [] [] (Text.trim flags)
      return ⟨String.ofList name, modes, ranges, none⟩

/-- The trimmed segments of a specification that are not empty. -/
def segments (specification : String) : List (List Char) :=
  ((Text.cutAt ';' specification.toList).map Text.trim).filter (!·.isEmpty)

/-- Read a specification; a failure names the instruction, if one is given. -/
def parseEntries (specification : String) (instruction : Option String) :
    Except Failure (List Entry) :=
  ((segments specification).mapM parseSegment).mapError (⟨·, instruction⟩)

end EncoderTables.Operand
