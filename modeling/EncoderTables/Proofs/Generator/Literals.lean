import EncoderTables.Proofs.Code.LaidLines
import EncoderTables.Proofs.Generator.LaidFunctions
import EncoderTables.Proofs.Generator.References

/-!
# Literals of generated code

The message of a failure and the mnemonic of an instruction stand in the blocks as string literals
on lines of their own. The message is escaped, the mnemonic is not. Both are laid out with all other
code: tabs give way to blanks, and a line that is too long is cut at a blank, also in the literal.
So the literal of a message is read as the message just if it has no tabs and the cuts in it
rejoin, and that of a mnemonic if it needs no escapes besides.
-/

namespace EncoderTables.Generator

open Code Results

mutual

/-- The messages of an action, in the order of their lines. Shared functions have their own. -/
def messages : Node → List String
  | .branch _ taken otherwise => messagesAll taken ++ messagesAll otherwise
  | .abort message => [message]
  | .unordered [single] _ => messages single
  | _ => []

/-- The messages of several actions. -/
def messagesAll : List Node → List String
  | [] => []
  | node :: rest => messages node ++ messagesAll rest

end

/-- The messages in the body of a function. -/
def Source.messages : Source → List String
  | .ofInstruction instruction => messagesAll instruction.encoding
  | .ofOrdering writes _ => messagesAll writes
  | .ofRoutine _ members _ => messagesAll members

mutual

/-- Each message of an action has a line of its own in its outline. -/
theorem exists_row {numbers : Numbers} {owner : Option String} (nesting : Nat) {message : String} :
    (node : Node) → {outlines : List Outline} → outline numbers owner node = .ok outlines →
      message ∈ messages node →
        ∃ row ∈ Outline.rowsAll nesting outlines, row.line = (messageLine message).toList
  | .branch condition taken otherwise, outlines, found, member => by
    rw [messages, List.mem_append] at member
    simp only [outline, bind_ok_iff] at found
    obtain ⟨test, -, first, one, found⟩ := found
    have inTaken (own : message ∈ messagesAll taken) := exists_rowAll (nesting + 1) taken one own
    split at found
    · next none =>
      rw [List.isEmpty_iff] at none
      subst none
      simp only [pure_ok_iff] at found
      subst found
      obtain ⟨row, listed, same⟩ := inTaken (member.resolve_right List.not_mem_nil)
      exact ⟨row, by simp [Outline.rowsAll, Outline.rows, listed], same⟩
    · simp only [bind_ok_iff, pure_ok_iff] at found
      obtain ⟨second, two, rfl⟩ := found
      rcases member with own | own
      · obtain ⟨row, listed, same⟩ := inTaken own
        exact ⟨row, by simp [Outline.rowsAll, Outline.rows, listed], same⟩
      · obtain ⟨row, listed, same⟩ := exists_rowAll (nesting + 1) otherwise two own
        exact ⟨row, by simp [Outline.rowsAll, Outline.rows, listed], same⟩
  | .abort own, outlines, found, member => by
    rw [outline, pure_ok_iff] at found
    obtain rfl := List.mem_singleton.mp member
    subst found
    refine ⟨⟨nesting, (messageLine message).toList⟩, ?_, ?_⟩
    · simp only [Outline.rowsAll, Outline.rows, List.append_nil]
      exact List.mem_cons_self
    · dsimp only
  | .unordered [single] _, outlines, found, member => by
    rw [outline] at found
    rw [messages] at member
    exact exists_row nesting single found member
  | .unordered [] _, _, _, member => by cases member
  | .unordered (_ :: _ :: _) _, _, _, member => by cases member
  | .bare _, _, _, member => by cases member
  | .group _, _, _, member => by cases member
  | .literal _, _, _, member => by cases member
  | .literalList _, _, _, member => by cases member
  | .param _, _, _, member => by cases member
  | .isSet _, _, _, member => by cases member
  | .unary .., _, _, member => by cases member
  | .binary .., _, _, member => by cases member
  | .write .., _, _, member => by cases member
  | .packed .., _, _, member => by cases member
  | .routine .., _, _, member => by cases member
  | .call _, _, _, member => by cases member

/-- Each message of several actions has a line of its own in their outlines. -/
theorem exists_rowAll {numbers : Numbers} {owner : Option String} (nesting : Nat)
    {message : String} : (nodes : List Node) → {outlines : List Outline} →
      outlineAll numbers owner nodes = .ok outlines → message ∈ messagesAll nodes →
        ∃ row ∈ Outline.rowsAll nesting outlines, row.line = (messageLine message).toList
  | [], _, _, member => by cases member
  | node :: rest, outlines, found, member => by
    simp only [outlineAll, bind_ok_iff, pure_ok_iff] at found
    obtain ⟨first, one, others, more, rfl⟩ := found
    rw [messagesAll, List.mem_append] at member
    rw [Outline.rowsAll_append]
    rcases member with own | own
    · obtain ⟨row, listed, same⟩ := exists_row nesting node one own
      exact ⟨row, List.mem_append_left _ listed, same⟩
    · obtain ⟨row, listed, same⟩ := exists_rowAll nesting rest more own
      exact ⟨row, List.mem_append_right _ listed, same⟩

end

/-- Each message of unordered writes has a line of its own in the cases of their function. -/
theorem exists_caseRow {numbers : Numbers} (nesting : Nat) {message : String} {writes : List Node}
    {index : Nat} {outlines : List Outline}
    (found : caseOutlines numbers index writes = .ok outlines)
    (member : message ∈ messagesAll writes) :
    ∃ row ∈ Outline.rowsAll nesting outlines, row.line = (messageLine message).toList := by
  induction writes generalizing index outlines with
  | nil => cases member
  | cons write rest inductionHypothesis =>
    simp only [caseOutlines, bind_ok_iff, pure_ok_iff] at found
    obtain ⟨body, one, others, more, rfl⟩ := found
    rw [messagesAll, List.mem_append] at member
    rcases member with own | own
    · obtain ⟨row, listed, same⟩ := exists_row (nesting + 1) write one own
      exact ⟨row, by simp [Outline.rowsAll, Outline.rows, listed], same⟩
    · obtain ⟨row, listed, same⟩ := inductionHypothesis more own
      exact ⟨row, by simp [Outline.rowsAll, listed], same⟩

/-- Each message of a function has a line of its own in the outlines of its body. -/
theorem Source.exists_row {source : Source} {numbers : Numbers} {outlines : List Outline}
    (found : source.outlines numbers = .ok outlines) {message : String}
    (member : message ∈ source.messages) (failing : Bool) :
    ∃ row ∈ Outline.rowsAll 0 (bodyOutlines outlines failing),
      row.line = (messageLine message).toList := by
  have own : ∃ row ∈ Outline.rowsAll 0 outlines, row.line = (messageLine message).toList := by
    cases source with
    | ofInstruction instruction => exact exists_rowAll 0 _ found member
    | ofOrdering writes id =>
      simp only [Source.outlines, orderingOutline, bind_ok_iff, pure_ok_iff] at found
      obtain ⟨cases, written, rfl⟩ := found
      obtain ⟨row, listed, same⟩ := exists_caseRow 2 written member
      exact ⟨row, by simp [Outline.rowsAll, Outline.rows, listed], same⟩
    | ofRoutine name members id => exact exists_rowAll 0 _ found member
  obtain ⟨row, listed, same⟩ := own
  exact ⟨row, by rw [bodyOutlines, Outline.rowsAll_append]; exact List.mem_append_left _ listed,
    same⟩

/-- A function with the outlines of a source in its body. -/
def Source.Is (source : Source) (numbers : Numbers) (function : Element) : Prop :=
  ∃ outlines failing, source.outlines numbers = .ok outlines ∧
    function = .function source.comment source.name .bool source.parameters
      (.plain (bodyText (Outline.texts outlines) failing)) true false

/-- A function whose code is that of the outlines of a source. -/
theorem IsFunction.is {source : Source} {numbers : Numbers} {code : Except Failure String}
    {function : Element} (own : IsFunction source.comment source.name source.parameters code function)
    (same : (source.outlines numbers).map Outline.texts = code) : source.Is numbers function := by
  obtain ⟨text, failing, rfl, rfl⟩ := own
  obtain ⟨outlines, found, rfl⟩ := (map_ok_iff ..).mp same
  exact ⟨outlines, failing, found, rfl⟩

/-- The functions of a run, each with the phase that produces it. -/
inductive Session.Holds (session : Session) : Phase → Source → Prop where
  | instruction {instruction : Instruction} (listed : instruction ∈ session.set.instructions) :
    Session.Holds session .instructionFunctions (.ofInstruction instruction)
  | ordering {writes : List Node} {id : Nat}
    (listed : (writes, id) ∈ session.emission.orderings.keys.zipIdx) :
    Session.Holds session .orderingFunctions (.ofOrdering writes id)
  | routine {name : String} {members : List Node} {id : Nat}
    (listed : (.routine name members, id) ∈ session.emission.routines.keys.zipIdx) :
    Session.Holds session .routineFunctions (.ofRoutine name members id)

/-- The chunks of an element stand between those of the elements around it. -/
theorem exists_chunksOf {implementing : Bool} {elements : List Element} {chunks own : List Chunk}
    (printed : chunksOf implementing elements = .ok chunks) {element : Element}
    (member : element ∈ elements) (one : element.chunks (!implementing) = .ok own) :
    ∃ front back, chunks = front ++ (own ++ back) := by
  induction elements generalizing chunks with
  | nil => cases member
  | cons first rest inductionHypothesis =>
    simp only [chunksOf, bind_ok_iff, pure_ok_iff] at printed
    obtain ⟨head, foremost, others, remaining, rfl⟩ := printed
    rcases List.mem_cons.mp member with rfl | later
    · rw [one] at foremost
      cases foremost
      exact ⟨[], others, rfl⟩
    · obtain ⟨front, back, rfl⟩ := inductionHypothesis remaining later
      exact ⟨head ++ front, back, by rw [List.append_assoc]⟩

/-- The page that a session lays its blocks out on. -/
def Session.page (session : Session) : Page := ⟨session.settings.indent, session.settings.width⟩

/-- What stands in front of the message of a failure on its line. -/
def messageLead : String := "evoasm_x64_enc_ctx_error(ctx, "

/-- A literal of a text is the escaped text between quotes. -/
theorem toList_literalText (text : String) :
    (literalText text).toList = '"' :: (Text.escaped text.toList ++ ['"']) := by
  have quote : "\"".toList = ['"'] := rfl
  rw [literalText, String.toList_append, String.toList_append, quote, String.toList_ofList]
  rfl

/-- A message is escaped on its line. -/
theorem toList_messageLine (message : String) : (messageLine message).toList =
    messageLead.toList ++ '"' :: (Text.escaped message.toList ++ '"' :: [')', ';']) := by
  have parts : messageLine message = messageLead ++ literalText message ++ ");" := rfl
  have close : ");".toList = [')', ';'] := rfl
  rw [parts, String.toList_append, String.toList_append, toList_literalText, close]
  simp only [List.append_assoc, List.cons_append, List.nil_append]

/-- The line of a message is a call around its literal. -/
theorem surrounds_message : Surrounds messageLead.toList [')', ';'] :=
  ⟨⟨'e', rfl, by decide⟩, List.forall_mem_cons.mpr ⟨rfl, List.forall_mem_singleton.mpr rfl⟩,
    by decide, by decide⟩

/-- The code of lines ends with a line. -/
theorem ends_codeOf (rows : List Row) : ∀ c ∈ (Outline.codeOf rows).getLast?, c = '\n' := by
  rcases List.eq_nil_or_concat' rows with rfl | ⟨former, last, rfl⟩
  · rw [Outline.codeOf_nil]
    rintro _ ⟨⟩
  · rw [Outline.codeOf_append, Outline.codeOf_cons, Outline.codeOf_nil]
    simp

/-- The body of a function is one of its chunks, behind the line that opens it. -/
theorem Source.exists_chunks (source : Source) (outlines : List Outline) (failing : Bool) :
    ∃ comment heading closing, source.chunks outlines failing = comment ++ [heading] ++
        ([.plain (Outline.texts (bodyOutlines outlines failing))] ++ closing) ∧
      heading.text.toList.getLast? = some '\n' := by
  refine ⟨source.comment.chunks, .list ("static bool " ++ source.name ++
    ("(" ++ ", ".intercalate source.arguments ++ ") \x7b") ++ "\n"),
    [.plain ("\x7d // " ++ source.name ++ "()" ++ "\n")], ?_, ?_⟩
  · rw [Source.chunks, List.append_assoc]
    rfl
  · rw [Chunk.list, String.toList_append]
    exact List.getLast?_concat

/-- The message of a laid out function is read if it has no tabs and the cuts in it rejoin. -/
theorem Source.reads_message {source : Source} {numbers : Numbers} {outlines : List Outline}
    (found : source.outlines numbers = .ok outlines) (failing : Bool) {message : String}
    (member : message ∈ source.messages) (whole : '\n' ∉ message.toList) (page : Page)
    (front back : List Chunk) :
    ReadsIff page messageLead.toList (Text.escaped message.toList) [')', ';']
      (layOut page (front ++ (source.chunks outlines failing ++ back))).toList message.toList
        ('\t' ∉ message.toList) := by
  obtain ⟨row, listed, line⟩ := source.exists_row found member failing
  obtain ⟨former, latter, rows⟩ := List.append_of_mem listed
  obtain ⟨comment, heading, closing, chunks, ends⟩ := source.exists_chunks outlines failing
  have text : (Chunk.join [.plain (Outline.texts (bodyOutlines outlines failing))]).toList =
      Outline.codeOf former ++ (messageLead.toList ++ '"' ::
        (Text.escaped message.toList ++ '"' :: [')', ';']) ++ '\n' :: Outline.codeOf latter) := by
    have body : Chunk.join [.plain (Outline.texts (bodyOutlines outlines failing))] =
        Outline.texts (bodyOutlines outlines failing) := by
      simp [Chunk.join, Chunk.plain]
    rw [body, ← Outline.codeOf_rowsAll 0, rows, Outline.codeOf_append, Outline.codeOf_cons, line,
      toList_messageLine]
  have wholeToo : '\n' ∉ Text.escaped message.toList := fun found =>
    (Text.mem_escaped found).elim whole (absurd · (by decide))
  rw [chunks, List.append_assoc _ _ back, List.append_assoc _ closing, ← List.append_assoc front]
  exact (surrounds_message.exists_laid (by decide) page (by simp [ends]) (by simp [Chunk.plain]) text
    (ends_codeOf former) (by decide) wholeToo).1 _ rfl

/-- What stands in front of a mnemonic: the type and the name of its table. -/
def mnemonicHead (instruction : Instruction) : String :=
  "static const char " ++ Naming.mnemonic instruction.name ++ "[] = "

/-- What stands in front of a mnemonic on its line, which the name of the table may end. -/
def mnemonicLead (instruction : Instruction) : List Char :=
  (Text.cutAt '\n' (mnemonicHead instruction).toList).getLastD []

/-- The name of an instruction stands in front of its mnemonic. -/
theorem toList_mnemonicHead (instruction : Instruction) : (mnemonicHead instruction).toList =
    "static const char name_".toList ++ (instruction.name.toList ++ "[] = ".toList) := by
  have joined : mnemonicHead instruction =
      "static const char " ++ ("name_" ++ instruction.name) ++ "[] = " := rfl
  have front : "static const char name_" = "static const char " ++ "name_" := rfl
  rw [joined, front]
  simp only [String.toList_append, List.append_assoc]

/-- The line of a mnemonic is a declaration around its literal, or the end of one. -/
theorem surrounds_mnemonic {instruction : Instruction}
    (valid : Instruction.isValidName instruction.name = true) :
    Surrounds (mnemonicLead instruction) [';'] ∧ '\n' ∉ mnemonicLead instruction ∧
      '\t' ∉ mnemonicLead instruction ∧
      ∃ head, (mnemonicHead instruction).toList = head ++ mnemonicLead instruction ∧
        ∀ c ∈ head.getLast?, c = '\n' := by
  obtain ⟨core, parts, -, letters⟩ := Instruction.exists_core valid
  have visible : ∀ c ∈ [';'], Text.isBlank c = false := List.forall_mem_singleton.mpr rfl
  have notIn {c : Char} (other : Instruction.isNamePart c = false) : c ∉ core := fun member => by
    rw [parts c member] at other
    cases other
  rcases letters with plain | ended
  · have clean {c : Char} (first : c ∉ "static const char name_".toList)
        (other : Instruction.isNamePart c = false) (last : c ∉ "[] = ".toList) :
        c ∉ (mnemonicHead instruction).toList := by
      rw [toList_mnemonicHead, plain]
      simp only [List.mem_append, not_or]
      exact ⟨first, notIn other, last⟩
    have whole : '\n' ∉ (mnemonicHead instruction).toList :=
      clean (by decide) (by decide) (by decide)
    have lead : mnemonicLead instruction = (mnemonicHead instruction).toList := by
      rw [mnemonicLead, Text.cutAt_clean whole]
      rfl
    rw [lead]
    refine ⟨⟨⟨'s', ?_, by decide⟩, visible, by decide, by decide⟩, whole,
      clean (by decide) (by decide) (by decide), [], rfl, by simp⟩
    rw [toList_mnemonicHead]
    rfl
  · have clean : '\n' ∉ "static const char name_".toList ++ core := by
      rw [List.mem_append, not_or]
      exact ⟨by decide, notIn (by decide)⟩
    have lined : (mnemonicHead instruction).toList =
        ("static const char name_".toList ++ core) ++ '\n' :: "[] = ".toList := by
      rw [toList_mnemonicHead, ended]
      simp only [List.append_assoc, List.cons_append, List.nil_append]
    have lead : mnemonicLead instruction = "[] = ".toList := by
      rw [mnemonicLead, lined, Text.cutAt_append _ _ _ clean]
      rfl
    rw [lead]
    refine ⟨⟨⟨'[', rfl, by decide⟩, visible, by decide, by decide⟩, by decide, by decide,
      ("static const char name_".toList ++ core) ++ ['\n'], ?_, ?_⟩
    · rw [lined, List.append_assoc _ ['\n'], List.singleton_append]
    · rw [List.getLast?_concat]
      rintro _ ⟨⟩
      rfl

/-- The chunks of the table of a mnemonic. -/
def mnemonicChunks (instruction : Instruction) : List Chunk :=
  [.plain "static ", .plain ("const char " ++ Naming.mnemonic instruction.name ++ "[]"),
   .plain (" = " ++ ("\"" ++ instruction.mnemonic ++ "\"")), .plain ";\n"]

/-- Tables of mnemonics are printed in their chunks. -/
theorem chunksOf_mnemonics (instructions : List Instruction) :
    chunksOf true (instructions.map mnemonicTable) = .ok (instructions.flatMap mnemonicChunks) := by
  have own (instruction : Instruction) :
      (mnemonicTable instruction).chunks false = .ok (mnemonicChunks instruction) := by
    have declared : TypeRef.char.const.declare (Naming.mnemonic instruction.name) =
        "const char" ++ " " ++ Naming.mnemonic instruction.name := if_neg (by decide)
    have dimension : String.join ([Scalar.text ""].map fun size => "[" ++ size.plain ++ "]") =
        "[]" := by decide
    have filled : "\"" ++ instruction.mnemonic ++ "\"" ≠ "" := by simp
    rw [mnemonicTable, openTable, Element.chunks, if_neg (by decide), Variable.implementation,
      Variable.parts, Variable.declarator, declared, dimension, Variable.initializer, if_neg filled]
    rfl
  induction instructions with
  | nil => rfl
  | cons instruction rest inductionHypothesis =>
    rw [List.map_cons, chunksOf, Bool.not_true, own, inductionHypothesis]
    rfl

/-- The chunks of a table of a mnemonic are its line, perhaps behind a part of the name. -/
theorem join_mnemonicChunks (instruction : Instruction) :
    (Chunk.join (mnemonicChunks instruction)).toList = (mnemonicHead instruction).toList ++
      ('"' :: (instruction.mnemonic.toList ++ '"' :: [';']) ++ ['\n']) := by
  have joined : Chunk.join (mnemonicChunks instruction) =
      mnemonicHead instruction ++ ("\"" ++ instruction.mnemonic ++ "\";\n") := by
    have front : "static " ++ "const char " = "static const char " := rfl
    have middle : "[]" ++ " = " = "[] = " := rfl
    have back : "\"" ++ ";\n" = "\";\n" := rfl
    unfold mnemonicHead
    rw [← front, ← middle, ← back]
    simp only [mnemonicChunks, Chunk.join, Chunk.plain, List.map_cons, List.map_nil,
      String.join_cons, String.join_nil, String.append_empty, String.append_assoc]
  have literal : ("\"" ++ instruction.mnemonic ++ "\";\n").toList =
      '"' :: (instruction.mnemonic.toList ++ ['"', ';', '\n']) := by
    rw [String.toList_append, String.toList_append]
    rfl
  rw [joined, String.toList_append, literal]
  simp only [List.append_assoc, List.cons_append, List.nil_append]

/-- The mnemonic of an instruction is read if it has no tabs and no characters that should be
escaped, and the cuts in it rejoin. -/
theorem reads_mnemonic {instructions : List Instruction} {instruction : Instruction}
    (listed : instruction ∈ instructions)
    (valid : Instruction.isValidName instruction.name = true)
    (whole : '\n' ∉ instruction.mnemonic.toList) (page : Page) :
    ReadsIff page (mnemonicLead instruction) instruction.mnemonic.toList [';']
      (layOut page (instructions.flatMap mnemonicChunks)).toList instruction.mnemonic.toList
        ('\t' ∉ instruction.mnemonic.toList ∧ '\\' ∉ instruction.mnemonic.toList ∧
          '"' ∉ instruction.mnemonic.toList) := by
  obtain ⟨former, latter, rfl⟩ := List.append_of_mem listed
  obtain ⟨surrounds, wholeLead, noTab, head, parts, starts⟩ := surrounds_mnemonic valid
  have ends : ∀ chunk ∈ (former.flatMap mnemonicChunks).getLast?,
      chunk.text.toList.getLast? = some '\n' := by
    rcases List.eq_nil_or_concat' former with rfl | ⟨others, last, rfl⟩
    · simp
    · simp [mnemonicChunks, Chunk.plain]
  have text : (Chunk.join (mnemonicChunks instruction)).toList =
      head ++ (mnemonicLead instruction ++
        '"' :: (instruction.mnemonic.toList ++ '"' :: [';']) ++ '\n' :: []) := by
    rw [join_mnemonicChunks, parts]
    simp only [List.append_assoc, List.cons_append]
  rw [List.flatMap_append, List.flatMap_cons]
  exact (surrounds.exists_laid noTab page ends (by simp [mnemonicChunks, Chunk.plain]) text starts
    wholeLead whole).2

section Run

variable {set : InstructionSet} {settings : Settings} {final : Session}

/-- The functions of a run are among the elements of their phases. -/
theorem Session.Holds.exists_function (ran : generate (.start set settings) = .ok () final)
    {phase : Phase} {source : Source} (holds : final.Holds phase source) :
    phase.forHeader = false ∧ ∃ functions, final.elements.lookup phase = some functions ∧
      ∃ function ∈ functions, source.Is final.emission.numbers function := by
  obtain ⟨instructions, orderings, routines, emits⟩ := generate_emits ran
  obtain ⟨encoded, -⟩ := generate_encodes ran
  cases holds with
  | instruction listed =>
    obtain ⟨function, member, own⟩ := exists_partner emits.instructions (encoded.source ▸ listed)
    exact ⟨rfl, instructions, emits.instructionsFound, function, member,
      IsFunction.is own (text_outlineAll ..)⟩
  | ordering listed =>
    obtain ⟨function, member, own⟩ := exists_partner emits.orderings listed
    exact ⟨rfl, orderings, emits.orderingsFound, function, member,
      IsFunction.is own (text_orderingOutline ..)⟩
  | routine listed =>
    obtain ⟨function, member, _, _, same, own⟩ := exists_partner emits.routines listed
    cases same
    exact ⟨rfl, routines, emits.routinesFound, function, member,
      IsFunction.is own (text_outlineAll ..)⟩

/-- In a complete run the block of a phase is its elements laid out. -/
theorem generate_block (ran : generate (.start set settings) = .ok () final) {phase : Phase}
    {elements : List Element} (found : final.elements.lookup phase = some elements) :
    ∃ chunks, chunksOf (!phase.forHeader) elements = .ok chunks ∧
      final.blocks.lookup phase = some (layOut final.page chunks) := by
  have member : phase ∈ Phase.all := by cases phase <;> decide
  obtain ⟨first, rest, split⟩ := List.append_of_mem member
  obtain ⟨-, own, block, -, -, -, printed, -, foundToo, blockFound⟩ := generate_made ran split
  rw [found] at foundToo
  cases foundToo
  simp only [render, bind_ok_iff, pure_ok_iff] at printed
  obtain ⟨page, wide, chunks, printed, rfl⟩ := printed
  unfold Page.make at wide
  split at wide
  · cases wide
  · cases wide
    exact ⟨chunks, printed, blockFound⟩

/-- In a complete run each message without line feeds and each mnemonic without them stands in its
block as a literal. That of a message is read as the message just if it has no tabs and the cuts in
it rejoin, that of a mnemonic just if it has no backslashes and double quotes besides. -/
theorem literals_read_iff (filled : set.Filled)
    (ran : generate (.start set settings) = .ok () final) :
    (∀ (phase : Phase) (source : Source) (message : String), final.Holds phase source →
      message ∈ source.messages → '\n' ∉ message.toList →
        ∃ block, final.blocks.lookup phase = some block ∧
          ReadsIff final.page messageLead.toList (Text.escaped message.toList) [')', ';']
            block.toList message.toList ('\t' ∉ message.toList)) ∧
      ∃ block, final.blocks.lookup .mnemonics = some block ∧
        ∀ instruction ∈ set.instructions, '\n' ∉ instruction.mnemonic.toList →
          ReadsIff final.page (mnemonicLead instruction) instruction.mnemonic.toList [';']
            block.toList instruction.mnemonic.toList
              ('\t' ∉ instruction.mnemonic.toList ∧ '\\' ∉ instruction.mnemonic.toList ∧
                '"' ∉ instruction.mnemonic.toList) := by
  constructor
  · intro phase source message holds member whole
    obtain ⟨implements, functions, found, function, listed, outlines, failing, own, rfl⟩ :=
      holds.exists_function ran
    obtain ⟨chunks, printed, block⟩ := generate_block ran found
    rw [implements] at printed
    obtain ⟨front, back, rfl⟩ :=
      exists_chunksOf printed listed (source.implementation_eq outlines failing)
    exact ⟨_, block, source.reads_message own failing member whole final.page front back⟩
  · obtain ⟨chunks, printed, block⟩ := generate_block ran (generate_mnemonics ran)
    cases (chunksOf_mnemonics set.instructions).symm.trans printed
    exact ⟨_, block, fun instruction listed whole =>
      reads_mnemonic listed (filled.sound listed).1 whole final.page⟩

end Run

/-- An instruction that reports a failure, with a double quote in its mnemonic and in the message. -/
def quotedNop : Except Failure Instruction :=
  Instruction.make "nop_quoted" "nop\"" "" [.abort "no \"nop\""] [] [] [] []

/-- An instruction has the mnemonic and the message of the one with double quotes. -/
def isQuoted (instruction : Instruction) : Bool :=
  instruction.mnemonic == "nop\"" && (messagesAll instruction.encoding).contains "no \"nop\""

/-- The message of such an instruction is read if the cuts in it rejoin. Its mnemonic is not read. -/
theorem literals_of_quotedNop : ∃ instruction set final, quotedNop = .ok instruction ∧
    InstructionSet.empty.addAll [instruction] = .ok set ∧ set.Filled ∧
    generate (.start set .default) = .ok () final ∧
    (∃ block, final.blocks.lookup .instructionFunctions = some block ∧
      ReadsIff final.page messageLead.toList (Text.escaped "no \"nop\"".toList) [')', ';']
        block.toList "no \"nop\"".toList True) ∧
    ∃ block, final.blocks.lookup .mnemonics = some block ∧
      ∃ front behind, Text.splice block.toList = Text.splice front ++ '"' :: Text.splice behind ∧
        readText? behind ≠ some "nop\"".toList := by
  have evaluated : passes (fun instruction =>
      passes (fun set => tablesSucceed set && set.instructions.any isQuoted)
        (InstructionSet.empty.addAll [instruction])) quotedNop = true := by
    decide +kernel
  obtain ⟨instruction, made, checked⟩ := exists_ok evaluated
  obtain ⟨set, added, computed⟩ := exists_ok checked
  rw [Bool.and_eq_true, List.any_eq_true] at computed
  obtain ⟨succeed, quoted, listed, own⟩ := computed
  simp only [isQuoted, Bool.and_eq_true, beq_iff_eq, List.contains_iff_mem] at own
  have filled : set.Filled := ⟨[instruction], by
    simpa using ⟨_, _, _, _, _, _, _, _, made⟩, added⟩
  obtain ⟨final, ran⟩ := generate_succeeds succeed
  obtain ⟨messages, mnemonics, found, mnemonic⟩ := literals_read_iff filled ran
  obtain ⟨encoded, -⟩ := generate_encodes ran
  have reads := messages .instructionFunctions (.ofInstruction quoted) _
    (.instruction (encoded.source ▸ listed)) own.2 (by decide)
  have noTab : '\t' ∉ "no \"nop\"".toList := by decide
  rw [eq_true noTab] at reads
  obtain ⟨_, _, _, front, behind, -, -, spliced, same⟩ := mnemonic quoted listed (by simp [own.1])
  rw [own.1] at same
  refine ⟨instruction, set, final, made, added, filled, ran, reads, mnemonics, found, front, behind,
    spliced, fun read => ?_⟩
  exact (same.mp read).1.2.2 (by decide)

end EncoderTables.Generator
