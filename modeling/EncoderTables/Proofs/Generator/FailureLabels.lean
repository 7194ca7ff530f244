import EncoderTables.Proofs.Generator.LaidFunctions

/-!
# Labels of failures

A body that can fail ends with a label that its failures go to. Whether it can is recorded while
its code is written, apart from the code itself. The record and the code agree: in the code of an
action there is a jump to the label exactly when writing the action records a failure, which is
when the action can fail, however deep in branches the reason for it is. So a body that is written
from the start has the label exactly when something jumps to it.
-/

namespace EncoderTables.Code.Outline

/-- The lines of outlines. -/
def lines (outlines : List Outline) : List (List Char) := (rowsAll 0 outlines).map (·.line)

mutual

/-- The lines of an outline do not depend on the blocks around it. -/
theorem line_rows (nesting other : Nat) : (outline : Outline) →
    (rows nesting outline).map (·.line) = (rows other outline).map (·.line)
  | .line own => rfl
  | .block head body => by
    have inside := line_rowsAll (nesting + 1) (other + 1) body
    simp [rows, inside]
  | .choice head taken otherwise => by
    have first := line_rowsAll (nesting + 1) (other + 1) taken
    have second := line_rowsAll (nesting + 1) (other + 1) otherwise
    simp [rows, first, second]

/-- The lines of outlines do not depend on the blocks around them. -/
theorem line_rowsAll (nesting other : Nat) : (outlines : List Outline) →
    (rowsAll nesting outlines).map (·.line) = (rowsAll other outlines).map (·.line)
  | [] => rfl
  | outline :: rest => by
    rw [rowsAll, rowsAll, List.map_append, List.map_append, line_rows nesting other outline,
      line_rowsAll nesting other rest]

end

/-- The lines of no outlines. -/
@[simp]
theorem lines_nil : lines [] = [] := rfl

/-- The lines of outlines behind others. -/
@[simp]
theorem lines_append (first second : List Outline) :
    lines (first ++ second) = lines first ++ lines second := by
  simp [lines]

/-- The lines of a line in front of outlines. -/
@[simp]
theorem lines_line (own : String) (rest : List Outline) :
    lines (.line own :: rest) = own.toList :: lines rest := rfl

/-- The lines of a block. -/
@[simp]
theorem lines_block (head : String) (body : List Outline) :
    lines [.block head body] = (head ++ " \x7b").toList :: (lines body ++ [['\x7d']]) := by
  have inside := line_rowsAll 1 0 body
  simp [lines, rowsAll, rows, inside]

/-- The lines of a choice. -/
@[simp]
theorem lines_choice (head : String) (taken otherwise : List Outline) :
    lines [.choice head taken otherwise] = (head ++ " \x7b").toList :: (lines taken ++
      "\x7d else \x7b".toList :: (lines otherwise ++ [['\x7d']])) := by
  have first := line_rowsAll 1 0 taken
  have second := line_rowsAll 1 0 otherwise
  simp [lines, rowsAll, rows, first, second]

end EncoderTables.Code.Outline

namespace EncoderTables.Generator

open Code Results

/-- An action that can fail: one that reports an error, one that calls a shared function, which are
calls of routines and unordered writes of which there is not just one, or one that performs an
action that can fail as a branch or as its only write. -/
inductive CanFail : Node → Prop where
  | abort (message : String) : CanFail (.abort message)
  | call (routine : Node) : CanFail (.call routine)
  | several {writes : List Node} (order : Scalar) (several : writes.length ≠ 1) :
    CanFail (.unordered writes order)
  | single {write : Node} (order : Scalar) (inside : CanFail write) :
    CanFail (.unordered [write] order)
  | taken {action condition : Node} {taken : List Node} (otherwise : List Node)
    (member : action ∈ taken) (inside : CanFail action) :
    CanFail (.branch condition taken otherwise)
  | otherwise {action condition : Node} (taken : List Node) {otherwise : List Node}
    (member : action ∈ otherwise) (inside : CanFail action) :
    CanFail (.branch condition taken otherwise)

/-- A branch can fail when an action of one of its sides can. -/
theorem canFail_branch {condition : Node} {taken otherwise : List Node} :
    CanFail (.branch condition taken otherwise) ↔
      (∃ action ∈ taken, CanFail action) ∨ ∃ action ∈ otherwise, CanFail action := by
  constructor
  · rintro (_ | _ | _ | _ | ⟨_, member, inside⟩ | ⟨_, member, inside⟩)
    · exact Or.inl ⟨_, member, inside⟩
    · exact Or.inr ⟨_, member, inside⟩
  · rintro (⟨action, member, inside⟩ | ⟨action, member, inside⟩)
    · exact .taken otherwise member inside
    · exact .otherwise taken member inside

/-- A single unordered write can fail when it can by itself. -/
theorem canFail_single {write : Node} {order : Scalar} :
    CanFail (.unordered [write] order) ↔ CanFail write := by
  constructor
  · rintro (_ | _ | ⟨_, several⟩ | ⟨_, inside⟩ | _ | _)
    · exact absurd rfl several
    · exact inside
  · exact .single order

/-- An action in front of others. -/
theorem exists_canFail_cons {node : Node} {rest : List Node} :
    (∃ action ∈ node :: rest, CanFail action) ↔ CanFail node ∨ ∃ action ∈ rest, CanFail action := by
  simp

mutual

/-- Writing an action records a failure when it can fail. -/
theorem fail_mem_effects : (node : Node) → (Effect.fail ∈ effects node ↔ CanFail node)
  | .write value _ => by
    simp only [effects, uses, List.mem_map, reduceCtorEq, and_false, exists_false, false_iff]
    exact fun cannot => nomatch cannot
  | .packed values sizes => by
    simp only [effects, uses, List.mem_map, reduceCtorEq, and_false, exists_false, false_iff]
    exact fun cannot => nomatch cannot
  | .branch condition taken otherwise => by
    simp [effects, uses, fail_mem_effectsAll taken, fail_mem_effectsAll otherwise, canFail_branch]
  | .abort message => by simp [effects, CanFail.abort message]
  | .call routine => by simp [effects, CanFail.call routine]
  | .unordered [single] order => by
    rw [canFail_single, ← fail_mem_effects single]
    simp [effects, effectsAll]
  | .unordered [] order => by
    simp [effects, @CanFail.several [] order (by decide)]
  | .unordered (first :: second :: rest) order => by
    simp [effects, @CanFail.several (first :: second :: rest) order (by simp)]
  | .bare _ | .group _ | .literal _ | .literalList _ | .param _ | .isSet _ | .unary .. |
    .binary .. | .routine .. => by
    simp only [effects, List.not_mem_nil, false_iff]
    exact fun cannot => nomatch cannot

/-- Writing actions records a failure when one of them can fail. -/
theorem fail_mem_effectsAll : (nodes : List Node) →
    (Effect.fail ∈ effectsAll nodes ↔ ∃ node ∈ nodes, CanFail node)
  | [] => by simp [effectsAll]
  | node :: rest => by
    rw [effectsAll, List.mem_append, fail_mem_effects node, fail_mem_effectsAll rest,
      exists_canFail_cons]

end

/-- The lines that have to do with the end of a body: the jump to the label of failures, the label
and the report of success. -/
def endings : List String := ["goto error;", "error:", "return true;"]

/-- A line of which the first two characters are not those of an ending. -/
def IsInner (line : List Char) : Prop :=
  line.take 2 ∉ endings.map fun ending => ending.toList.take 2

instance (line : List Char) : Decidable (IsInner line) := inferInstanceAs (Decidable (_ ∉ _))

/-- A line that starts as no ending does is none. -/
theorem IsInner.ne {line : List Char} (inner : IsInner line) :
    ∀ ending ∈ endings, ending.toList ≠ line := by
  rintro ending member rfl
  exact inner (List.mem_map_of_mem member)

/-- A text of which the first two characters are there and are not those of an ending. -/
def OpensInner (text : String) : Prop := 2 ≤ text.toList.length ∧ IsInner text.toList

instance (text : String) : Decidable (OpensInner text) := inferInstanceAs (Decidable (_ ∧ _))

/-- The first part of a line tells that it is no ending. -/
theorem OpensInner.append {front : String} (opens : OpensInner front) (back : String) :
    OpensInner (front ++ back) := by
  obtain ⟨enough, inner⟩ := opens
  refine ⟨?_, ?_⟩
  · rw [String.toList_append, List.length_append]
    omega
  · rwa [IsInner, String.toList_append, List.take_append_of_le_length enough]

/-- Lines that jump to the label of failures exactly under a condition, and contain no other
ending. -/
def Leaves (lines : List (List Char)) (fails : Prop) : Prop :=
  ∀ ending ∈ endings, ending.toList ∈ lines ↔ ending = "goto error;" ∧ fails

namespace Leaves

variable {lines others : List (List Char)} {fails more : Prop}

/-- No lines. -/
theorem nil : Leaves [] False := by simp [Leaves]

/-- The jump to the label. -/
theorem jump : Leaves ["goto error;".toList] True := by
  intro ending _
  rw [List.mem_singleton, String.toList_inj, and_true]

/-- A line that is no ending in front of others. -/
theorem cons {line : List Char} (inner : IsInner line) (leaves : Leaves lines fails) :
    Leaves (line :: lines) fails := by
  intro ending member
  rw [List.mem_cons, leaves ending member, or_iff_right (inner.ne ending member)]

/-- Lines behind others. -/
theorem append (first : Leaves lines fails) (second : Leaves others more) :
    Leaves (lines ++ others) (fails ∨ more) := by
  intro ending member
  rw [List.mem_append, first ending member, second ending member, and_or_left]

/-- The same lines under an equivalent condition. -/
theorem congr (leaves : Leaves lines fails) (same : fails ↔ more) : Leaves lines more :=
  fun ending member => (leaves ending member).trans (and_congr_right fun _ => same)

/-- The end of a block behind lines. -/
theorem close (leaves : Leaves lines fails) : Leaves (lines ++ [['\x7d']]) fails :=
  (leaves.append (cons (by decide) nil)).congr (or_iff_left id)

/-- A line that starts as no ending does. -/
theorem line {own : String} (opens : OpensInner own) :
    Leaves (Outline.lines [.line own]) False :=
  cons opens.2 nil

/-- A block jumps to the label when its body does. -/
theorem block {head : String} {body : List Outline} (opens : OpensInner head)
    (inside : Leaves (Outline.lines body) fails) :
    Leaves (Outline.lines [.block head body]) fails := by
  rw [Outline.lines_block]
  exact cons (opens.append _).2 inside.close

/-- A choice jumps to the label when one of its sides does. -/
theorem choice {head : String} {taken otherwise : List Outline} (opens : OpensInner head)
    (first : Leaves (Outline.lines taken) fails) (second : Leaves (Outline.lines otherwise) more) :
    Leaves (Outline.lines [.choice head taken otherwise]) (fails ∨ more) := by
  rw [Outline.lines_choice]
  exact cons (opens.append _).2 (first.append (cons (by decide) second.close))

end Leaves

/-- The block of a call jumps to the label. -/
theorem leaves_callBlock (function arguments : String) :
    Leaves (Outline.lines [callBlock function arguments]) True :=
  .block ((((OpensInner.append (by decide) _).append _).append _).append _) .jump

/-- The line of a value does not jump. -/
theorem leaves_writeLine (size : Int) (value : String) :
    Leaves (Outline.lines [.line (writeLine size value)]) False :=
  .line ((((OpensInner.append (by decide) _).append _).append _).append _)

/-- The head of a branch is no ending. -/
theorem opensInner_branch (test : String) : OpensInner ("if(" ++ test ++ ")") :=
  (OpensInner.append (by decide) _).append _

/-- The outline of unordered writes jumps to the label. -/
theorem leaves_unordered {numbers : Numbers} {owner : Option String} {writes : List Node}
    {order : String} {outlines : List Outline}
    (found : (do
      let _ ← unorderedCode numbers owner writes order
      return [callBlock (Naming.orderingFunction (toString (numbers.ordering writes)))
        ("ctx, " ++ fieldAccess order)]) = Except.ok (α := List Outline) outlines) :
    Leaves (Outline.lines outlines) True := by
  simp only [bind_ok_iff, pure_ok_iff] at found
  obtain ⟨_, -, rfl⟩ := found
  exact leaves_callBlock _ _

mutual

/-- The code of an action jumps to the label when the action can fail. -/
theorem leaves_outline {numbers : Numbers} {owner : Option String} : (node : Node) →
    {outlines : List Outline} → outline numbers owner node = .ok outlines →
      Leaves (Outline.lines outlines) (CanFail node)
  | .write value size, outlines, found => by
    simp only [outline, bind_ok_iff, pure_ok_iff] at found
    obtain ⟨code, -, rfl⟩ := found
    exact (leaves_writeLine size code).congr (iff_of_false id fun cannot => nomatch cannot)
  | .packed values sizes, outlines, found => by
    simp only [outline, bind_ok_iff, pure_ok_iff] at found
    obtain ⟨terms, -, rfl⟩ := found
    exact (leaves_writeLine _ _).congr (iff_of_false id fun cannot => nomatch cannot)
  | .branch condition taken otherwise, outlines, found => by
    simp only [outline, bind_ok_iff] at found
    obtain ⟨test, -, first, onTaken, found⟩ := found
    have opens := opensInner_branch test
    have leaves := leaves_outlineAll taken onTaken
    split at found
    · next none =>
      simp only [pure_ok_iff] at found
      subst found
      refine (Leaves.block opens leaves).congr ?_
      rw [canFail_branch, List.isEmpty_iff.mp none]
      simp
    · simp only [bind_ok_iff, pure_ok_iff] at found
      obtain ⟨second, onOther, rfl⟩ := found
      exact (Leaves.choice opens leaves (leaves_outlineAll otherwise onOther)).congr
        canFail_branch.symm
  | .abort message, outlines, found => by
    cases found
    have report : OpensInner (messageLine message) :=
      (OpensInner.append (by decide) _).append _
    rw [Outline.lines_line]
    exact (Leaves.jump.cons report.2).congr (iff_of_true trivial (.abort message))
  | .call routine, outlines, found => by
    simp only [outline, bind_ok_iff, pure_ok_iff] at found
    obtain ⟨id, -, rfl⟩ := found
    exact (leaves_callBlock _ _).congr (iff_of_true trivial (.call routine))
  | .unordered [] order, outlines, found =>
    (leaves_unordered found).congr (iff_of_true trivial (.several order (by decide)))
  | .unordered [single] order, outlines, found =>
    (leaves_outline single found).congr canFail_single.symm
  | .unordered (_ :: _ :: _) order, outlines, found =>
    (leaves_unordered found).congr (iff_of_true trivial (.several order (by simp)))
  | .bare _, _, found => by cases found
  | .group _, _, found => by cases found
  | .literal _, _, found => by cases found
  | .literalList _, _, found => by cases found
  | .param _, _, found => by cases found
  | .isSet _, _, found => by cases found
  | .unary .., _, found => by cases found
  | .binary .., _, found => by cases found
  | .routine .., _, found => by cases found

/-- The code of actions jumps to the label when one of them can fail. -/
theorem leaves_outlineAll {numbers : Numbers} {owner : Option String} : (nodes : List Node) →
    {outlines : List Outline} → outlineAll numbers owner nodes = .ok outlines →
      Leaves (Outline.lines outlines) (∃ node ∈ nodes, CanFail node)
  | [], outlines, found => by
    cases found
    exact Leaves.nil.congr (by simp)
  | node :: rest, outlines, found => by
    simp only [outlineAll, bind_ok_iff, pure_ok_iff] at found
    obtain ⟨first, own, others, more, rfl⟩ := found
    rw [Outline.lines_append]
    exact ((leaves_outline node own).append (leaves_outlineAll rest more)).congr
      exists_canFail_cons.symm

end

/-- The cases of unordered writes jump to the label when one of the writes can fail. -/
theorem leaves_caseOutlines {numbers : Numbers} {index : Nat} {writes : List Node}
    {outlines : List Outline} (found : caseOutlines numbers index writes = .ok outlines) :
    Leaves (Outline.lines outlines) (∃ write ∈ writes, CanFail write) := by
  induction writes generalizing index outlines with
  | nil =>
    cases found
    exact Leaves.nil.congr (by simp)
  | cons write rest inductionHypothesis =>
    simp only [caseOutlines, bind_ok_iff, pure_ok_iff] at found
    obtain ⟨body, own, others, more, rfl⟩ := found
    have opens : OpensInner ("case " ++ toString index ++ ":") :=
      (OpensInner.append (by decide) _).append _
    have stays : Leaves (Outline.lines [.line "break;"]) False := .line (by decide)
    have leaves := (leaves_outline write own).append stays
    rw [← Outline.lines_append] at leaves
    have first := Leaves.block opens (leaves.congr (or_iff_left id))
    have both := first.append (inductionHypothesis more)
    rw [← Outline.lines_append] at both
    exact both.congr exists_canFail_cons.symm

/-- The function of unordered writes jumps to the label when one of the writes can fail. -/
theorem leaves_orderingOutline {numbers : Numbers} {writes : List Node} {outlines : List Outline}
    (found : orderingOutline numbers writes = .ok outlines) :
    Leaves (Outline.lines outlines) (∃ write ∈ writes, CanFail write) := by
  simp only [orderingOutline, bind_ok_iff, pure_ok_iff] at found
  obtain ⟨cases, inside, rfl⟩ := found
  have rest : Leaves (Outline.lines [.line "default:", .line "evoasm_assert_not_reached();"])
      False := by
    rw [Outline.lines_line]
    exact (Leaves.line (by decide)).cons (by decide)
  have leaves := (leaves_caseOutlines inside).append rest
  rw [← Outline.lines_append] at leaves
  refine .block ?_ (.block ?_ (leaves.congr (or_iff_left id)))
  · exact (OpensInner.append (by decide) _).append _
  · exact (OpensInner.append (by decide) _).append _

section Records

variable {id : Nat} {emission : Emission}

/-- Whether the body of an emitter has been recorded to fail, if there is such an emitter. -/
def Emission.failing? (emission : Emission) (id : Nat) : Option Bool :=
  emission.emitters[id]?.map (·.canFail)

/-- Merging from one emitter into another does not record failures. -/
theorem failing?_mergeFrom (emission : Emission) (source target id : Nat) :
    (emission.mergeFrom source target).failing? id = emission.failing? id := by
  unfold Emission.mergeFrom
  cases emission.emitters[source]? with
  | none => rfl
  | some emitter =>
    have merged := Emission.mergeWithin_merged
      (emission.emitters.length * (emitter.parameters.length + emitter.domains.length) + 1)
      emitter.parameters emitter.domains emission target
    unfold Emission.failing?
    cases found : emission.emitters[id]? with
    | none =>
      have outside := List.getElem?_eq_none_iff.mp found
      rw [← merged.size] at outside
      exact congrArg _ (List.getElem?_eq_none_iff.mpr outside)
    | some known =>
      obtain ⟨_, _, reached, -⟩ := merged.absorbed id known found
      exact congrArg (·.map (·.canFail)) reached

/-- A failure is recorded. -/
theorem failing?_perform_fail :
    (Effect.fail.perform id emission).failing? id = (emission.failing? id).map fun _ => true := by
  simp [Effect.perform, Emission.failing?, Emission.getElem?_update, Function.comp_def]

/-- No other effect records a failure. -/
theorem failing?_perform {effect : Effect} (other : effect ≠ .fail) :
    (effect.perform id emission).failing? id = emission.failing? id := by
  cases effect with
  | use name =>
    have kept (emitter : Emitter) : (emitter.use name).canFail = emitter.canFail := by
      unfold Emitter.use
      split <;> rfl
    simp [Effect.perform, Emission.failing?, Emission.getElem?_update, Function.comp_def, kept]
  | impose order items =>
    simp [Effect.perform, Emission.failing?, Emission.getElem?_update, Function.comp_def,
      Emitter.impose]
  | fail => exact absurd rfl other
  | ordering writes => rfl
  | routine target =>
    rw [Effect.perform, Emission.requestRoutine_snd]
    split
    · rfl
    · exact failing?_mergeFrom _ _ _ _

/-- A failure has been recorded when there was one before, or when one of the effects is one. -/
theorem failing?_performAll {fails : Bool} (effects : List Effect)
    (found : emission.failing? id = some fails) :
    ∃ now, (Effect.performAll id effects emission).failing? id = some now ∧
      (now = true ↔ fails = true ∨ .fail ∈ effects) := by
  induction effects generalizing emission fails with
  | nil => exact ⟨fails, found, by simp⟩
  | cons effect rest inductionHypothesis =>
    by_cases failure : effect = .fail
    · subst failure
      have recorded : (Effect.fail.perform id emission).failing? id = some true := by
        rw [failing?_perform_fail, found]
        rfl
      obtain ⟨now, last, same⟩ := inductionHypothesis recorded
      exact ⟨now, last, by simp [same]⟩
    · obtain ⟨now, last, same⟩ := inductionHypothesis ((failing?_perform failure).trans found)
      refine ⟨now, last, same.trans ?_⟩
      rw [List.mem_cons, or_iff_right (Ne.symm failure)]

end Records

namespace Source

/-- The actions that a function performs. -/
def actions : Source → List Node
  | .ofInstruction instruction => instruction.encoding
  | .ofOrdering writes _ => writes
  | .ofRoutine _ members _ => members

/-- The outline of a function jumps to the label when one of its actions can fail. -/
theorem leaves_outlines {source : Source} {numbers : Numbers} {outlines : List Outline}
    (found : source.outlines numbers = .ok outlines) :
    Leaves (Outline.lines outlines) (∃ node ∈ source.actions, CanFail node) := by
  cases source with
  | ofInstruction instruction => exact leaves_outlineAll _ found
  | ofOrdering writes id => exact leaves_orderingOutline found
  | ofRoutine name members id => exact leaves_outlineAll _ found

/-- The outline of a function is clear when its operators and messages stand on one line each. -/
theorem areClear_outlines {source : Source} {numbers : Numbers} {outlines : List Outline}
    (unbroken : AreUnbroken source.actions) (found : source.outlines numbers = .ok outlines) :
    Outline.AreClear outlines := by
  cases source with
  | ofInstruction instruction => exact clear_outlineAll _ unbroken found
  | ofOrdering writes id => exact clear_orderingOutline unbroken found
  | ofRoutine name members id => exact clear_outlineAll _ unbroken found

variable {source : Source} {emitter : Nat} {before after : Emission} {function : Element}

/-- Making a function records the effects of its actions. -/
theorem function_performs (made : source.function emitter before = .ok function after) :
    after = Effect.performAll emitter (effectsAll source.actions) before := by
  cases source with
  | ofInstruction instruction => exact (instructionFunction_wrote made).1
  | ofOrdering writes id => exact (orderingFunction_wrote made).1
  | ofRoutine name members id =>
    have own : routineFunction ⟨emitter, none⟩ (.routine name members) (toString id) before =
      .ok function after := made
    exact (routineFunction_wrote own).1

end Source

/-- A function has the label of failures when a failure has been recorded. -/
theorem encodingFunction_reports {comment : Comment} {name code : String}
    {parameters : List Element} {site : Site} {before after : Emission} {function : Element}
    (made : encodingFunction comment name code parameters site before = .ok function after) :
    function = .function comment name .bool parameters
      (.plain (bodyText code ((after.failing? site.emitter).getD false))) true false := by
  simp only [encodingFunction, Steps.bind_ok_iff, Steps.get_ok_iff, Steps.pure_ok_iff] at made
  obtain ⟨read, _, ⟨rfl, rfl⟩, same, rfl⟩ := made
  exact same.symm

/-- The end of a body tells whether it reports a failure. -/
theorem failing_of_bodyText {first second : String} {failing other : Bool}
    (same : bodyText first failing = bodyText second other) : failing = other := by
  have letter (code : String) (fails : Bool) : (bodyText code fails).toList.reverse[3]? =
      some (if fails then 's' else 'u') := by
    cases fails <;> simp [bodyText]
  have letters := letter first failing
  rw [same, letter second other] at letters
  revert letters
  cases failing <;> cases other <;> decide

/-- Making a function ends with its body, which has the label of failures when one has been
recorded. -/
theorem Source.function_reports {source : Source} {emitter : Nat} {before after : Emission}
    {function : Element} (made : source.function emitter before = .ok function after) :
    ∃ comment name parameters code, function = .function comment name .bool parameters
      (.plain (bodyText code ((after.failing? emitter).getD false))) true false := by
  cases source with
  | ofInstruction instruction =>
    simp only [Source.function, instructionFunction, Steps.bind_ok_iff] at made
    obtain ⟨_, _, -, rest⟩ := made
    exact ⟨_, _, _, _, encodingFunction_reports rest⟩
  | ofOrdering writes id =>
    simp only [Source.function, orderingFunction, Steps.bind_ok_iff] at made
    obtain ⟨_, _, -, rest⟩ := made
    exact ⟨_, _, _, _, encodingFunction_reports rest⟩
  | ofRoutine name members id =>
    simp only [Source.function, routineFunction, Steps.bind_ok_iff] at made
    obtain ⟨_, _, -, rest⟩ := made
    exact ⟨_, _, _, _, encodingFunction_reports rest⟩

/-- The body of a function is the code of its outline, and has the label of failures exactly when
one of its actions can fail, if no failure had been recorded before. -/
theorem Source.function_body {source : Source} {emitter : Nat} {before after : Emission}
    {function : Element} (fresh : before.failing? emitter = some false)
    (made : source.function emitter before = .ok function after) :
    ∃ outlines failing, source.outlines after.numbers = .ok outlines ∧
      (failing = true ↔ ∃ node ∈ source.actions, CanFail node) ∧
      function = .function source.comment source.name .bool source.parameters
        (.plain (bodyText (Outline.texts outlines) failing)) true false := by
  obtain ⟨outlines, failing, found, is⟩ := source.function_is made
  obtain ⟨_, _, _, code, reports⟩ := function_reports made
  obtain ⟨now, last, same⟩ := failing?_performAll (effectsAll source.actions) fresh
  rw [← function_performs made] at last
  rw [is] at reports
  injection reports with _ _ _ _ body
  injection body with body
  have failingIs := failing_of_bodyText body
  rw [last, Option.getD_some] at failingIs
  refine ⟨outlines, failing, found, ?_, is⟩
  rw [failingIs, same, fail_mem_effectsAll]
  simp

/-- The lines of a text. -/
def linesOf (text : String) : List String := (Text.cutAt '\n' text.toList).map String.ofList

/-- A text is one of several lines when its characters are. -/
theorem mem_map_ofList {text : String} {lines : List (List Char)} :
    text ∈ lines.map String.ofList ↔ text.toList ∈ lines := by
  rw [List.mem_map]
  constructor
  · rintro ⟨line, member, rfl⟩
    rwa [String.toList_ofList]
  · exact fun member => ⟨_, member, String.ofList_toList⟩

/-- The lines of the report of failure, with the last one that is empty. -/
def failureReport (failing : Bool) : List String :=
  if failing then ["", "error:", "return false;", ""] else [""]

/-- The lines of a body are those of its actions, the report of success and, if it can fail, the
report of failure. -/
theorem linesOf_bodyText {outlines : List Outline} (clear : Outline.AreClear outlines)
    (failing : Bool) : linesOf (bodyText (Outline.texts outlines) failing) =
      (Outline.lines outlines).map String.ofList ++ "return true;" :: failureReport failing := by
  have whole : ∀ line ∈ Outline.lines (bodyOutlines outlines failing), '\n' ∉ line := by
    intro line member
    obtain ⟨row, inside, rfl⟩ := List.mem_map.mp member
    exact ((Outline.rowsAll_nest 0 _ (clear_bodyOutlines clear failing)).2 row inside).whole
  have code : (bodyText (Outline.texts outlines) failing).toList =
      (Outline.lines (bodyOutlines outlines failing)).flatMap (· ++ ['\n']) := by
    rw [← text_bodyOutlines, ← Outline.codeOf_rowsAll 0, Outline.codeOf, Outline.lines,
      List.flatMap_map]
  rw [linesOf, code, Text.cutAt_flatMap whole, bodyOutlines, Outline.lines_append,
    Outline.lines_line, failureReport]
  cases failing <;> simp

/-- A function that is made from a source with an emitter that is new has the label of failures at
most once, on a line behind the report of success at the end, and exactly when a line jumps to it.
Such a line there is exactly when one of the actions can fail: when one of them is an error, a call
or several unordered writes, however deep it is in branches and single unordered writes. -/
theorem label_iff_canFail {source : Source} {emitter : Nat} {before after : Emission}
    {function : Element} {known : Emitter} (unbroken : AreUnbroken source.actions)
    (found : before.emitters[emitter]? = some known) (fresh : known.canFail = false)
    (made : source.function emitter before = .ok function after) :
    ∃ text front back,
      function = .function source.comment source.name .bool source.parameters
        (.plain text) true false ∧
      linesOf text = front ++ "return true;" :: back ∧ "return true;" ∉ back ∧ "error:" ∉ front ∧
      (linesOf text).count "error:" ≤ 1 ∧
      ("error:" ∈ linesOf text ↔ "goto error;" ∈ linesOf text) ∧
      ("goto error;" ∈ linesOf text ↔ ∃ node ∈ source.actions, CanFail node) := by
  have unrecorded : before.failing? emitter = some false := by
    rw [Emission.failing?, found, Option.map_some, fresh]
  obtain ⟨outlines, failing, outlined, fails, is⟩ := source.function_body unrecorded made
  have clear := Source.areClear_outlines unbroken outlined
  have leaves := Source.leaves_outlines outlined
  have jumps := mem_map_ofList.trans (leaves "goto error;" (by decide))
  have label := mem_map_ofList.trans (leaves "error:" (by decide))
  simp only [true_and, show ("error:" = "goto error;") = False by decide, false_and,
    iff_false] at jumps label
  refine ⟨_, _, _, is, linesOf_bodyText clear failing, ?_, label, ?_, ?_, ?_⟩
  case refine_1 => cases failing <;> decide
  all_goals rw [linesOf_bodyText clear failing]
  case refine_2 =>
    rw [List.count_append, List.count_eq_zero.mpr label]
    cases failing <;> decide
  case refine_3 =>
    rw [List.mem_append, List.mem_append, or_iff_right label, jumps, ← fails]
    cases failing <;> decide
  case refine_4 =>
    rw [List.mem_append, jumps]
    cases failing <;> simp [failureReport]

/-- A routine that fails in the second side of a branch, inside of a single unordered write. -/
def deepFailure : Source :=
  .ofRoutine "deep" [
    .write (.param "imm0") 8,
    .branch (.isSet "reg_base") [] [
      .unordered [.branch (.isSet "reg_index") [.abort "no error: here"] []] .absent]] 0

/-- Nothing has been emitted, and there is one emitter. -/
def oneEmitter : Emission := (Emission.empty.add (.fresh none (.listed []))).2

/-- Such a routine is made, and its function has the label and a jump to it. -/
theorem label_iff_canFail_deep : ∃ function after text,
    deepFailure.function 0 oneEmitter = .ok function after ∧
      function = .function deepFailure.comment deepFailure.name .bool deepFailure.parameters
        (.plain text) true false ∧
      "error:" ∈ linesOf text ∧ "goto error;" ∈ linesOf text := by
  have unbroken : AreUnbroken deepFailure.actions := by
    simp [deepFailure, Source.actions, AreUnbroken, IsUnbroken]
  have listed : oneEmitter.emitters[0]? = some (.fresh none (.listed [])) := rfl
  have evaluated : ((deepFailure.function 0).run' oneEmitter).isSome = true := by decide +kernel
  have fails : ∃ node ∈ deepFailure.actions, CanFail node :=
    ⟨_, List.mem_cons_of_mem _ List.mem_cons_self, .otherwise _ List.mem_cons_self
      (.single _ (.taken _ List.mem_cons_self (.abort _)))⟩
  cases made : deepFailure.function 0 oneEmitter with
  | ok function after =>
    obtain ⟨text, _, _, is, -, -, -, -, labelled, jumps⟩ :=
      label_iff_canFail unbroken listed rfl made
    exact ⟨function, after, text, rfl, is, labelled.mpr (jumps.mpr fails), jumps.mpr fails⟩
  | error failure after =>
    delta EStateM.run' EStateM.run at evaluated
    rw [made] at evaluated
    cases evaluated

end EncoderTables.Generator
