import EncoderTables.Proofs.Generator.Outlines

/-!
# Laid out functions

A function stands on lines of its own: its comment, its heading, the outline of its body inside
of it and the line that closes it. A printer that is given its code in any chunks, at any depth
and on any page, writes each line at the depth of the blocks around it, and is left as deep as
it was and with nothing in its buffer. So functions can stand one behind the other.
-/

namespace EncoderTables.Generator

open Code Results

/-- What a function is made from. -/
inductive Source where
  | ofInstruction (instruction : Instruction)
  | ofOrdering (writes : List Node) (id : Nat)
  | ofRoutine (name : String) (members : List Node) (id : Nat)

namespace Source

/-- The function that is made from a source for an emitter. -/
def function (emitter : Nat) : Source → Emit Element
  | .ofInstruction instruction => instructionFunction ⟨emitter, some instruction.name⟩ instruction
  | .ofOrdering writes id =>
    orderingFunction ⟨emitter, none⟩ writes (toString id)
      (Naming.permutationTable (toString writes.length))
  | .ofRoutine name members id =>
    routineFunction ⟨emitter, none⟩ (.routine name members) (toString id)

/-- The name of the function. -/
def name : Source → String
  | .ofInstruction instruction => Naming.encoder instruction.name
  | .ofOrdering _ id => Naming.orderingFunction (toString id)
  | .ofRoutine _ _ id => Naming.routineFunction (toString id)

/-- The comment in front of the function. -/
def comment : Source → Comment
  | .ofRoutine name _ _ => ⟨name, ""⟩
  | _ => .none

/-- The parameters of the function. -/
def parameters : Source → List Element
  | .ofOrdering .. => [contextParameter, .parameter ⟨"order", .unsigned⟩]
  | _ => [contextParameter]

/-- The texts of the function's parameters. -/
def arguments : Source → List String
  | .ofOrdering .. => ["evoasm_x64_enc_ctx_t *ctx", "unsigned order"]
  | _ => ["evoasm_x64_enc_ctx_t *ctx"]

/-- The outline of the actions that the function performs. -/
def outlines (numbers : Numbers) : Source → Except Failure (List Outline)
  | .ofInstruction instruction => outlineAll numbers (some instruction.name) instruction.encoding
  | .ofOrdering writes _ => orderingOutline numbers writes
  | .ofRoutine _ members _ => outlineAll numbers none members

/-- A source with a valid name or with one that stands on one line, and with actions of which
the operators and messages do. -/
def IsUnbroken : Source → Prop
  | .ofInstruction instruction =>
    Instruction.isValidName instruction.name = true ∧ AreUnbroken instruction.encoding
  | .ofOrdering writes _ => AreUnbroken writes
  | .ofRoutine name members _ => '\n' ∉ name.toList ∧ AreUnbroken members

/-- A function that is made from the source. -/
def Makes (source : Source) (function : Element) : Prop :=
  ∃ emitter before after, source.function emitter before = .ok function after

end Source

/-- The outline of a body: its actions, the report of success and, if it can fail, the report of
failure. -/
def bodyOutlines (outlines : List Outline) (failing : Bool) : List Outline :=
  outlines ++ .line "return true;" ::
    (if failing then [.line "", .line "error:", .line "return false;"] else [])

/-- The lines of a text outside of all blocks. -/
def outerRows (text : String) : List Row := (Text.cutAt '\n' text.toList).map fun line => ⟨0, line⟩

/-- The lines of a function: its comment, its heading, its body inside of it and its end. -/
def Source.rows (source : Source) (outlines : List Outline) (failing : Bool) : List Row :=
  (if source.comment.brief = "" then [] else outerRows ("/* " ++ source.comment.brief ++ " */")) ++
    outerRows ("static bool " ++ source.name ++
      ("(" ++ ", ".intercalate source.arguments ++ ") \x7b")) ++
    Outline.rowsAll 1 (bodyOutlines outlines failing) ++
    outerRows ("\x7d // " ++ source.name ++ "()")

/-- The outline of a body is its code. -/
theorem text_bodyOutlines (outlines : List Outline) (failing : Bool) :
    Outline.texts (bodyOutlines outlines failing) = bodyText (Outline.texts outlines) failing := by
  have success : Outline.text (.line "return true;") = "return true;\n" := rfl
  have failure : Outline.texts [.line "", .line "error:", .line "return false;"] =
      "\nerror:\nreturn false;\n" := rfl
  rw [bodyOutlines, Outline.texts_append, Outline.texts, success, bodyText, ← String.append_assoc]
  cases failing with
  | true => rw [if_pos rfl, if_pos rfl, failure]
  | false => rfl

/-- A body is clear when its actions are. -/
theorem clear_bodyOutlines {outlines : List Outline} (clear : Outline.AreClear outlines)
    (failing : Bool) : Outline.AreClear (bodyOutlines outlines failing) := by
  have success : IsStatement "return true;" := ⟨by decide, by decide, by decide⟩
  have label : IsStatement "error:" := ⟨by decide, by decide, by decide⟩
  have failure : IsStatement "return false;" := ⟨by decide, by decide, by decide⟩
  refine (Outline.areClear_append _ _).mpr ⟨clear, Or.inr success, ?_⟩
  cases failing with
  | true => exact ⟨Or.inl rfl, Or.inr label, Or.inr failure, trivial⟩
  | false => trivial

/-- The outline of a source can be told from its lines. -/
theorem Source.clear_outlines {source : Source} {numbers : Numbers} {outlines : List Outline}
    (unbroken : source.IsUnbroken) (found : source.outlines numbers = .ok outlines) :
    Outline.AreClear outlines := by
  cases source with
  | ofInstruction instruction => exact clear_outlineAll _ unbroken.2 found
  | ofOrdering writes id => exact clear_orderingOutline unbroken found
  | ofRoutine name members id => exact clear_outlineAll _ unbroken.2 found

/-- A function has the outline of its source as its body. -/
theorem Source.function_is {source : Source} {emitter : Nat} {before after : Emission}
    {function : Element} (made : source.function emitter before = .ok function after) :
    ∃ outlines failing, source.outlines after.numbers = .ok outlines ∧
      function = .function source.comment source.name .bool source.parameters
        (.plain (bodyText (Outline.texts outlines) failing)) true false := by
  have outlined {found : Except Failure (List Outline)} {text : String}
      (same : found.map Outline.texts = .ok text) :
      ∃ outlines, found = .ok outlines ∧ Outline.texts outlines = text := by
    cases found with
    | error failure => cases same
    | ok outlines => exact ⟨outlines, rfl, Except.ok.inj same⟩
  cases source with
  | ofInstruction instruction =>
    obtain ⟨text, failing, found, rfl⟩ :=
      instructionFunction_is rfl made after.numbers_numbered
    obtain ⟨outlines, own, rfl⟩ := outlined ((text_outlineAll _ _ _).trans found)
    exact ⟨outlines, failing, own, rfl⟩
  | ofOrdering writes id =>
    obtain ⟨text, failing, found, rfl⟩ := orderingFunction_is made after.numbers_numbered
    obtain ⟨outlines, own, rfl⟩ := outlined ((text_orderingOutline _ _).trans found)
    exact ⟨outlines, failing, own, rfl⟩
  | ofRoutine name members id =>
    have own : IsRoutine after.numbers (.routine name members) id function :=
      routineFunction_is made after.numbers_numbered
    obtain ⟨_, _, ⟨⟩, text, failing, found, rfl⟩ := own
    obtain ⟨outlines, own, rfl⟩ := outlined ((text_outlineAll _ _ _).trans found)
    exact ⟨outlines, failing, own, rfl⟩

/-- A name that stands on one line, perhaps with a line feed behind it. -/
structure NamesLine (name : String) (core : List Char) : Prop where
  whole : '\n' ∉ core
  ends : EndsLine (String.ofList core)
  letters : name.toList = core ∨ name.toList = core ++ ['\n']

/-- The code of the lines of a text. -/
theorem codeOf_outerRows (text : String) :
    Outline.codeOf (outerRows text) = text.toList ++ ['\n'] := by
  rw [Outline.codeOf, outerRows, List.flatMap_map]
  exact Text.flatMap_cutAt text.toList

/-- A text without line feeds outside of all blocks. -/
theorem outerRows_whole {text : String} (whole : '\n' ∉ text.toList) :
    outerRows text = [⟨0, text.toList⟩] := by
  rw [outerRows, Text.cutAt_clean whole]
  rfl

/-- The lines of a name between two texts open and close what the texts do, if the second
neither starts nor ends with the end of a block. -/
theorem outerRows_named (front back : String) {name : String} {core : List Char}
    (own : NamesLine name core) (one : '\n' ∉ front.toList) (two : '\n' ∉ back.toList) {c d e : Char}
    (start : front.toList.head? = some c) (head : back.toList.head? = some d)
    (stop : back.toList.getLast? = some e) (starts : Text.isBlank c = false ∧ c ≠ '#')
    (turns : Text.isBlank d = false ∧ d ≠ '\x7d' ∧ d ≠ '#')
    (stops : Text.isBlank e = false ∧ e ≠ '\x7d') :
    Nests (c == '\x7d').toNat (outerRows (front ++ name ++ back)) (e == '\x7b').toNat ∧
      ∀ row ∈ outerRows (front ++ name ++ back), row.IsLine := by
  obtain ⟨whole, ⟨x, last, visible, noOpener, noCloser⟩, letters⟩ := own
  rw [String.toList_ofList] at last
  have open_ : (e == '\x7d') = false := beq_eq_false_iff_ne.mpr stops.2
  rcases letters with plain | ended
  · have lined : (front ++ name ++ back).toList = front.toList ++ core ++ back.toList := by
      rw [String.toList_append, String.toList_append, plain]
    have first : (front ++ name ++ back).toList.head? = some c := by
      rw [lined, List.head?_append, List.head?_append, start]
      rfl
    have final : (front ++ name ++ back).toList.getLast? = some e := by
      rw [lined, List.getLast?_append, stop]
      rfl
    have clean : '\n' ∉ (front ++ name ++ back).toList := by
      rw [lined]
      simp [one, two, whole]
    rw [outerRows_whole clean]
    refine ⟨.of_edges first final (by simp [open_]) (by simp), List.forall_mem_singleton.mpr ?_⟩
    exact .of_edges clean first final starts.1 starts.2 stops.1
  · -- The second text stands on a line of its own.
    have lined : (front ++ name ++ back).toList =
        (front.toList ++ core) ++ '\n' :: back.toList := by
      rw [String.toList_append, String.toList_append, ended]
      simp
    have clean : '\n' ∉ front.toList ++ core := by simp [one, whole]
    have rows : outerRows (front ++ name ++ back) =
        [⟨0, front.toList ++ core⟩] ++ [⟨0, back.toList⟩] := by
      rw [outerRows, lined, Text.cutAt_append _ _ _ clean, Text.cutAt_clean two]
      rfl
    have first : (front.toList ++ core).head? = some c := by
      rw [List.head?_append, start]
      rfl
    have middle : (front.toList ++ core).getLast? = some x := by
      rw [List.getLast?_append, Option.mem_def.mp last]
      rfl
    have upper : Nests (c == '\x7d').toNat [⟨0, front.toList ++ core⟩] 0 :=
      .of_edges first middle (by simp [beq_eq_false_iff_ne.mpr noCloser])
        (by simp [beq_eq_false_iff_ne.mpr noOpener])
    have lower : Nests 0 [⟨0, back.toList⟩] (e == '\x7b').toNat :=
      .of_edges head stop (by simp [open_, beq_eq_false_iff_ne.mpr turns.2.1]) (by simp)
    rw [rows]
    refine ⟨upper.append lower, List.forall_mem_append.mpr
      ⟨List.forall_mem_singleton.mpr ?_, List.forall_mem_singleton.mpr ?_⟩⟩
    · exact .of_edges clean first middle starts.1 starts.2 visible
    · exact .of_edges two head stop turns.1 turns.2.2 stops.1

/-- A number ends as a line does. -/
theorem endsLine_number (value : Nat) : EndsLine (toString value) := by
  have letters : (toString value).toList = Nat.toDigits 10 value := by simp
  have last := List.getLast?_eq_some_getLast (@Nat.toDigits_ne_nil value 10)
  have digit := Nat.isDigit_of_mem_toDigits (by decide) (by decide)
    (List.mem_of_getLast? last)
  have code := Char.isDigit_iff_toNat.mp digit
  have own := Text.of_ascii (P := fun c => c.isDigit = true →
      Text.isBlank c = false ∧ c ≠ '\x7b' ∧ c ≠ '\x7d')
    (by decide) (code.2.trans_lt (by decide)) digit
  exact ⟨_, by rw [letters]; exact last, own⟩

/-- A character of a name can be seen and is no brace. -/
theorem visible_of_isNamePart {c : Char} (part : Instruction.isNamePart c = true) :
    Text.isBlank c = false ∧ c ≠ '\x7b' ∧ c ≠ '\x7d' :=
  Text.of_ascii (P := fun c => Instruction.isNamePart c = true →
      Text.isBlank c = false ∧ c ≠ '\x7b' ∧ c ≠ '\x7d')
    (by decide) (Instruction.isPlain_of_isNamePart (Or.inl part)).1 part

/-- The name of a function stands on one line, but for a line feed behind it. -/
theorem Source.exists_namesLine {source : Source} (unbroken : source.IsUnbroken) :
    ∃ core, NamesLine source.name core := by
  have shared (leader : String) (whole : '\n' ∉ leader.toList) (id : Nat) :
      NamesLine (leader ++ toString id) (leader ++ toString id).toList :=
    ⟨whole_append whole (whole_nat id),
      by rw [String.ofList_toList]; exact (endsLine_number id).append leader, Or.inl rfl⟩
  cases source with
  | ofInstruction instruction =>
    obtain ⟨core, parts, nonempty, letters⟩ := Instruction.exists_core unbroken.1
    have symbol : (Naming.encoder instruction.name).toList =
        "evoasm_x64_".toList ++ instruction.name.toList := by
      have joined : Naming.encoder instruction.name = "evoasm_x64_" ++ instruction.name := by
        rfl
      rw [joined, String.toList_append]
    have last := List.getLast?_eq_some_getLast nonempty
    have whole : '\n' ∉ core := fun member => absurd (parts _ member) (by decide)
    refine ⟨"evoasm_x64_".toList ++ core, ?_, ⟨core.getLast nonempty, ?_, ?_⟩, ?_⟩
    · rw [List.mem_append, not_or]
      exact ⟨by decide, whole⟩
    · rw [String.toList_ofList, List.getLast?_append, last]
      rfl
    · exact visible_of_isNamePart (parts _ (List.getLast_mem nonempty))
    · rw [Source.name, symbol]
      rcases letters with plain | ended
      · exact Or.inl (by rw [plain])
      · exact Or.inr (by rw [ended, List.append_assoc])
  | ofOrdering writes id => exact ⟨_, shared "evoasm_x64_prefs_" (by decide) id⟩
  | ofRoutine name members id => exact ⟨_, shared "evoasm_x64_func_" (by decide) id⟩

/-- The chunks of a function. -/
def Source.chunks (source : Source) (outlines : List Outline) (failing : Bool) : List Chunk :=
  source.comment.chunks ++
    [.list ("static bool " ++ source.name ++
      ("(" ++ ", ".intercalate source.arguments ++ ") \x7b") ++ "\n"),
     .plain (Outline.texts (bodyOutlines outlines failing)),
     .plain ("\x7d // " ++ source.name ++ "()" ++ "\n")]

/-- A function is printed in its chunks. -/
theorem Source.implementation_eq (source : Source) (outlines : List Outline) (failing : Bool) :
    Element.implementation (.function source.comment source.name .bool source.parameters
      (.plain (bodyText (Outline.texts outlines) failing)) true false) =
      .ok (source.chunks outlines failing) := by
  have texts : Element.texts source.parameters = .ok source.arguments := by
    cases source <;> rfl
  have declared (name : String) : TypeRef.bool.declare name = "bool" ++ " " ++ name := rfl
  have heading : Element.prototype source.name .bool true false source.arguments ++ " \x7b\n" =
      "static bool " ++ source.name ++ ("(" ++ ", ".intercalate source.arguments ++ ") \x7b") ++
        "\n" := by
    have front : "static " ++ "" ++ ("bool" ++ " ") = "static bool " := rfl
    have back : ")" ++ " \x7b\n" = ") \x7b" ++ "\n" := rfl
    rw [Element.prototype, declared, if_pos rfl, if_neg (by decide), ← front]
    simp only [String.append_assoc, back]
  have closing : "\x7d // " ++ source.name ++ "()\n" =
      "\x7d // " ++ source.name ++ "()" ++ "\n" := by
    have back : "()\n" = "()" ++ "\n" := rfl
    rw [back, ← String.append_assoc]
  have body : Element.codeChunks (bodyText (Outline.texts outlines) failing) false [] =
      [.plain (Outline.texts (bodyOutlines outlines failing))] := by
    have stop : (bodyText (Outline.texts outlines) failing).toList.getLast? = some '\n' := by
      rw [bodyText, String.toList_append, List.getLast?_append]
      cases failing with
      | true => rfl
      | false =>
        rw [String.toList_append, List.getLast?_append]
        rfl
    have filled : bodyText (Outline.texts outlines) failing ≠ "" := by
      intro none
      rw [none] at stop
      cases stop
    rw [Element.codeChunks, if_neg filled, if_pos stop, text_bodyOutlines]
    rfl
  rw [Element.implementation, Element.chunks, if_neg (by decide), texts]
  have inside : Element.chunks false (.plain (bodyText (Outline.texts outlines) failing)) =
      .ok [.plain (Outline.texts (bodyOutlines outlines failing))] := congrArg Except.ok body
  rw [inside, Source.chunks, ← heading, ← closing]
  simp only [Element.functionChunks, bind, Except.bind, pure, Except.pure, Bool.or_true,
    Bool.not_false, List.append_assoc, List.cons_append, List.nil_append]

/-- The chunks of a function have no leaders. -/
theorem Source.bare_chunks (source : Source) (outlines : List Outline) (failing : Bool) :
    ∀ chunk ∈ source.chunks outlines failing, chunk.leader = "" := by
  have comment : ∀ chunk ∈ source.comment.chunks, chunk.leader = "" := by
    cases source with
    | ofRoutine name members id =>
      by_cases none : name = ""
      · simp [Source.comment, Comment.chunks, none]
      · simp [Source.comment, Comment.chunks, none, Chunk.plain]
    | _ => simp [Source.comment, Comment.none, Comment.chunks]
  simpa [Source.chunks, or_imp, forall_and, Chunk.list, Chunk.plain] using comment

/-- The chunks of a function are its lines. -/
theorem Source.join_chunks (source : Source) (outlines : List Outline) (failing : Bool) :
    (Chunk.join (source.chunks outlines failing)).toList =
      Outline.codeOf (source.rows outlines failing) := by
  have comment : (Chunk.join source.comment.chunks).toList = Outline.codeOf
      (if source.comment.brief = "" then []
        else outerRows ("/* " ++ source.comment.brief ++ " */")) := by
    have plain : source.comment.detail = "" := by cases source <;> rfl
    have back : " */\n" = " */" ++ "\n" := rfl
    by_cases none : source.comment.brief = ""
    · rw [Comment.chunks, if_pos none, if_pos none]
      rfl
    · rw [Comment.chunks, if_neg none, if_neg none, if_pos plain, codeOf_outerRows, Chunk.join]
      simp only [List.map_cons, List.map_nil, String.join_cons, Chunk.plain, back,
        String.toList_append, List.append_assoc]
      rfl
  rw [Source.rows]
  simp only [Outline.codeOf_append, codeOf_outerRows, Outline.codeOf_rowsAll, ← comment]
  simp only [Source.chunks, Chunk.join, Chunk.list, Chunk.plain, List.map_append, List.map_cons,
    List.map_nil, String.join_append, String.join_cons, String.toList_append, List.append_assoc]
  rfl

/-- The comment of a source is a line by itself. -/
theorem Source.comment_nests {source : Source} (unbroken : source.IsUnbroken) :
    Nests 0 (outerRows ("/* " ++ source.comment.brief ++ " */")) 0 ∧
      ∀ row ∈ outerRows ("/* " ++ source.comment.brief ++ " */"), row.IsLine := by
  have brief : '\n' ∉ source.comment.brief.toList := by
    cases source with
    | ofRoutine name members id => exact unbroken.1
    | _ => exact List.not_mem_nil
  have whole : '\n' ∉ ("/* " ++ source.comment.brief ++ " */").toList :=
    whole_append (whole_append (by decide) brief) (by decide)
  have statement : IsStatement ("/* " ++ source.comment.brief ++ " */") :=
    ⟨whole, (OpensLine.append (by decide) _).append _, EndsLine.append (by decide) _⟩
  rw [outerRows_whole whole]
  exact ⟨(statement.nests 0).1, List.forall_mem_singleton.mpr (statement.nests 0).2⟩

/-- The lines of a function end outside of all blocks, where they start. -/
theorem Source.rows_nest {source : Source} (unbroken : source.IsUnbroken)
    {outlines : List Outline} (clear : Outline.AreClear outlines) (failing : Bool) :
    Nests 0 (source.rows outlines failing) 0 ∧
      ∀ row ∈ source.rows outlines failing, row.IsLine := by
  obtain ⟨core, named⟩ := exists_namesLine unbroken
  obtain ⟨comment, commentLines⟩ : Nests 0 (if source.comment.brief = "" then []
        else outerRows ("/* " ++ source.comment.brief ++ " */")) 0 ∧
      ∀ row ∈ (if source.comment.brief = "" then []
        else outerRows ("/* " ++ source.comment.brief ++ " */")), row.IsLine := by
    split
    · exact ⟨rfl, List.forall_mem_nil _⟩
    · exact comment_nests unbroken
  obtain ⟨whole, head, stop⟩ :
      '\n' ∉ ("(" ++ ", ".intercalate source.arguments ++ ") \x7b").toList ∧
        ("(" ++ ", ".intercalate source.arguments ++ ") \x7b").toList.head? = some '(' ∧
        ("(" ++ ", ".intercalate source.arguments ++ ") \x7b").toList.getLast? = some '\x7b' := by
    have checked : ∀ arguments ∈
        [["evoasm_x64_enc_ctx_t *ctx", "unsigned order"], ["evoasm_x64_enc_ctx_t *ctx"]],
        '\n' ∉ ("(" ++ ", ".intercalate arguments ++ ") \x7b").toList ∧
          ("(" ++ ", ".intercalate arguments ++ ") \x7b").toList.head? = some '(' ∧
          ("(" ++ ", ".intercalate arguments ++ ") \x7b").toList.getLast? = some '\x7b' := by
      decide
    exact checked _ (by cases source <;> simp [Source.arguments])
  obtain ⟨heading, headingLines⟩ := outerRows_named "static bool " _ named (by decide) whole rfl
    head stop (by decide) (by decide) (by decide)
  obtain ⟨body, bodyLines⟩ :=
    Outline.rowsAll_nest 1 (bodyOutlines outlines failing) (clear_bodyOutlines clear failing)
  obtain ⟨closing, closingLines⟩ := outerRows_named "\x7d // " "()" named
    (by decide) (by decide) rfl rfl rfl (by decide) (by decide) (by decide)
  refine ⟨((comment.append heading).append body).append closing, ?_⟩
  simp only [Source.rows, List.forall_mem_append]
  exact ⟨⟨⟨commentLines, headingLines⟩, bodyLines⟩, closingLines⟩

/-- A function is laid out in lines at the depth of their blocks. Whatever chunks its code
arrives in, a printer that holds no incomplete line writes each line at its nesting above the
depth that the printer has, and keeps its depth. -/
structure LaysOut (function : Element) (rows : List Row) (chunks : List Chunk) : Prop where
  printed : function.implementation = .ok chunks
  bare : ∀ chunk ∈ chunks, chunk.leader = ""
  written : ∀ (page : Page) (printer : Printer) (pieces : List Chunk), printer.buffer = [] →
    (∀ piece ∈ pieces, piece.leader = "") → Chunk.join pieces = Chunk.join chunks →
      Printer.PutsAll page printer.depth printer rows (printer.writeAll page pieces) ∧
        (printer.writeAll page pieces).depth = printer.depth ∧
        (printer.writeAll page pieces).buffer = []

/-- The function that is made from a source is laid out in the lines of the source. -/
theorem Source.laysOut {source : Source} (unbroken : source.IsUnbroken) {emitter : Nat}
    {before after : Emission} {function : Element}
    (made : source.function emitter before = .ok function after) :
    ∃ outlines failing, source.outlines after.numbers = .ok outlines ∧
      LaysOut function (source.rows outlines failing) (source.chunks outlines failing) := by
  obtain ⟨outlines, failing, found, rfl⟩ := source.function_is made
  obtain ⟨nests, isLine⟩ := rows_nest unbroken (clear_outlines unbroken found) failing
  refine ⟨outlines, failing, found, source.implementation_eq outlines failing,
    source.bare_chunks outlines failing, fun page printer pieces waiting bare same => ?_⟩
  have code : (Chunk.join pieces).toList = Outline.codeOf (source.rows outlines failing) := by
    rw [same, source.join_chunks]
  exact Printer.writeAll_nests page nests isLine rfl waiting bare code

/-- Functions one behind the other leave a printer as deep as it was. -/
theorem chunksOf_keeps {functions : List Element}
    (made : ∀ function ∈ functions, ∃ source : Source, source.IsUnbroken ∧ source.Makes function) :
    ∃ chunks, chunksOf true functions = .ok chunks ∧ ∀ (page : Page) (printer : Printer),
      printer.buffer = [] → (printer.writeAll page chunks).depth = printer.depth ∧
        (printer.writeAll page chunks).buffer = [] := by
  induction functions with
  | nil => exact ⟨[], rfl, fun page printer waiting => ⟨rfl, waiting⟩⟩
  | cons function rest inductionHypothesis =>
    obtain ⟨⟨source, unbroken, emitter, before, after, own⟩, others⟩ := List.forall_mem_cons.mp made
    obtain ⟨outlines, failing, -, laid⟩ := source.laysOut unbroken own
    obtain ⟨chunks, found, keeps⟩ := inductionHypothesis others
    have printed : Element.chunks (!true) function = .ok (source.chunks outlines failing) :=
      laid.printed
    refine ⟨source.chunks outlines failing ++ chunks, ?_, fun page printer waiting => ?_⟩
    · rw [chunksOf, printed, found]
      rfl
    · obtain ⟨-, same, empty⟩ := laid.written page printer _ waiting laid.bare rfl
      obtain ⟨sameToo, emptyToo⟩ := keeps page (printer.writeAll page _) empty
      rw [Printer.writeAll, List.foldl_append]
      exact ⟨sameToo.trans same, emptyToo⟩

/-- Every function that is made from a source without line feeds in its names, operators and
messages is written at the depth of its blocks, wherever it starts: each line stands above the
depth of the printer by the number of blocks around it, the printer is never below the depth
that it had, nor at it in front of a line that closes a block, and in the end it has that depth
again. So a printer that writes any number of such functions ends where it started. -/
theorem functions_nest :
    (∀ (source : Source) (emitter : Nat) (before after : Emission) (function : Element),
      source.IsUnbroken → source.function emitter before = .ok function after →
        ∃ outlines failing, source.outlines after.numbers = .ok outlines ∧
          LaysOut function (source.rows outlines failing) (source.chunks outlines failing)) ∧
      ∀ functions : List Element,
        (∀ function ∈ functions, ∃ source : Source, source.IsUnbroken ∧ source.Makes function) →
          ∃ chunks, chunksOf true functions = .ok chunks ∧ ∀ page : Page,
            (Printer.start.writeAll page chunks).depth = 0 ∧
              (Printer.start.writeAll page chunks).buffer = [] := by
  refine ⟨fun source emitter before after function unbroken made => source.laysOut unbroken made,
    fun functions made => ?_⟩
  obtain ⟨chunks, found, keeps⟩ := chunksOf_keeps made
  exact ⟨chunks, found, fun page => keeps page Printer.start rfl⟩

/-- A routine with a choice, of which one branch calls another routine and the other reports a
failure that mentions braces. -/
def nestedSource : Source :=
  .ofRoutine "prefix" [
    .branch (.binary "==" (.param "imm0") (.literal (.number 0)))
      [.call (.routine "empty" [.branch (.isSet "reg_base") [] [.write (.literal (.number 1)) 8]])]
      [.abort "\x7d no prefix \x7b", .write (.param "imm0") 8]] 0

/-- Such a routine is made and laid out. -/
theorem functions_nest_choice :
    ∃ function after, nestedSource.IsUnbroken ∧
      nestedSource.function 0 Emission.empty = .ok function after ∧
      ∃ outlines failing, nestedSource.outlines after.numbers = .ok outlines ∧
        LaysOut function (nestedSource.rows outlines failing)
          (nestedSource.chunks outlines failing) := by
  have unbroken : nestedSource.IsUnbroken := by
    simp [nestedSource, Source.IsUnbroken, AreUnbroken, IsUnbroken]
  have evaluated : (match nestedSource.function 0 Emission.empty with
      | .ok .. => true
      | .error .. => false) = true := by
    decide +kernel
  cases made : nestedSource.function 0 Emission.empty with
  | ok function after =>
    exact ⟨function, after, unbroken, rfl,
      functions_nest.1 nestedSource 0 Emission.empty after function unbroken made⟩
  | error failure after =>
    rw [made] at evaluated
    cases evaluated

end EncoderTables.Generator
