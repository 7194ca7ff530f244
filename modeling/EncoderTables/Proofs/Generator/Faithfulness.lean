import EncoderTables.Proofs.Generator.ActionTexts

/-!
# Faithful translation

The code of actions is a text of them. A body that has been written has numbers for all
shared functions that it calls, and keeps them. So when two lists of actions are translated
one after the other and have the same code, they are the same, up to the names of routines
and up to single unordered writes.
-/

namespace EncoderTables.Generator

open Text Results

/-- The name of a shared function ends with its number. -/
theorem toList_symbol (kind : String) (id : Nat) :
    (Naming.symbol (Naming.archPath none) (kind ++ toString id)).toList =
      "evoasm_x64_".toList ++ (kind.toList ++ Nat.toDigits 10 id) := by
  have leader : ("evoasm" ++ "_" ++ ("x64" ++ "_")).toList = "evoasm_x64_".toList := by
    decide
  rw [← leader]
  simp [Naming.symbol, Naming.archPath, Naming.library, Naming.architecture,
    String.intercalate_cons_cons]

/-- The code of a write is its start and its body. -/
theorem toList_writeText (size : Int) (code : String) :
    (writeText size code).toList = Start.write.text ++ writeBody size code.toList := by
  have opening : "(ctx, ".toList = '(' :: "ctx, ".toList := by decide
  have ending : ");\n".toList = ')' :: ';' :: ['\n'] := by decide
  -- Long constants are kept out of sight, since rewriting would spell them out.
  have parts (start digits : String) : (start ++ digits ++ "(ctx, " ++ code ++ ");\n").toList =
      start.toList ++ (digits.toList ++ '(' :: ("ctx, ".toList ++ (code.toList ++
        ')' :: ';' :: ['\n']))) := by
    simp only [String.toList_append, List.append_assoc, opening, ending, List.cons_append]
  exact parts _ _

/-- The code of a call is its start and its body. -/
theorem toList_callText {start : Start} {kind : String}
    (starts : start.text = "if(!".toList ++ ("evoasm_x64_".toList ++ kind.toList)) (id : Nat)
    (arguments : String) :
    (callText (Naming.symbol (Naming.archPath none) (kind ++ toString id)) arguments).toList =
      start.text ++ callBody id arguments.toList := by
  have opening : "(".toList = ['('] := by decide
  have ending : (")) \x7b\n" ++ failText ++ "\x7d\n").toList = ')' :: failure := by
    decide
  have parts (function : String) : (callText function arguments).toList =
      "if(!".toList ++ (function.toList ++ ("(".toList ++ (arguments.toList ++
        (")) \x7b\n" ++ failText ++ "\x7d\n").toList))) := by
    simp only [callText, String.toList_append, List.append_assoc]
  rw [parts, toList_symbol, opening, ending, starts, callBody]
  simp only [List.append_assoc, List.cons_append, List.nil_append]

mutual

/-- An action whose expressions are operations. Packed values are as many as their widths,
which are numbers, and the parameter that selects an order is named by a text. -/
def isStep : Node → Bool
  | .write value _ => isOperation value
  | .packed values sizes =>
    !values.isEmpty && values.length == sizes.length && values.all isOperation &&
      sizes.all fun size => size.whole?.isSome
  | .branch condition taken otherwise =>
    isOperation condition && areSteps taken && areSteps otherwise
  | .abort _ | .call _ => true
  | .unordered writes order => !writes.isEmpty && areSteps writes && match order with
    | .text _ => true
    | _ => false
  | _ => false

/-- Actions whose expressions are operations. -/
def areSteps : List Node → Bool
  | [] => true
  | node :: rest => isStep node && areSteps rest

end

/-- What a body calls has a number in the ledgers. -/
def Effect.Recorded (emission : Emission) : Effect → Prop
  | .routine target => ∃ id, emission.routines.id? target = some id
  | .ordering writes => ∃ id, emission.orderings.id? writes = some id
  | .use _ | .impose _ _ | .fail => True

/-- Operations do not hold unordered writes. -/
theorem unwrapped_operation : (node : Node) → isOperation node = true → node.unwrapped = node
  | .literal _, _ | .param _, _ | .isSet _, _ => rfl
  | .unary symbol inner, operation => by
    rw [isOperation, Bool.and_eq_true] at operation
    rw [Node.unwrapped, unwrapped_operation inner operation.2]
  | .binary symbol left right, operation => by
    simp only [isOperation, Bool.and_eq_true] at operation
    rw [Node.unwrapped, unwrapped_operation left operation.1.2,
      unwrapped_operation right operation.2]
  | .bare _, operation | .group _, operation | .literalList _, operation
  | .write _ _, operation | .packed _ _, operation | .branch _ _ _, operation
  | .abort _, operation | .routine _ _, operation | .call _, operation
  | .unordered _ _, operation => by cases operation

/-- Several operations do not hold unordered writes. -/
theorem unwrappedAll_operations {nodes : List Node} (operations : nodes.all isOperation = true) :
    Node.unwrappedAll nodes = nodes := by
  induction nodes with
  | nil => rfl
  | cons node rest inductionHypothesis =>
    rw [List.all_cons, Bool.and_eq_true] at operations
    rw [Node.unwrappedAll, unwrapped_operation node operations.1,
      inductionHypothesis operations.2]

/-- The widths of packed values are not negative in total. -/
theorem Packing.room {values : List Node} {widths : List Int} {text : List Char}
    (packing : Packing values widths text) : 0 ≤ widths.foldr (· + ·) 0 := by
  induction packing with
  | last positive field => simpa using positive
  | more places positive field packing inductionHypothesis =>
    exact Int.add_nonneg positive inductionHypothesis

/-- The term of a packed value is its masked field, shifted. -/
theorem shiftedText_of_term {owner : Option String} {value : Node} {width : Int}
    {code mask : String} (operation : isOperation value = true)
    (inside : expressionCode owner value = .ok code) (masked : packedMask width = .ok mask)
    (places : Nat) :
    ∃ field, 0 ≤ width ∧ Spelled (maskedField value width) field ∧
      ("((" ++ code ++ " & " ++ mask ++ ") << " ++ toString (places : Int) ++ ")").toList =
        shiftedText field places := by
  have ampersand : isOperator "&" = true := by decide +kernel
  unfold packedMask at masked
  split at masked
  · cases masked
  · next notBelow =>
    cases masked
    refine ⟨_, Int.not_lt.mp notBelow, .joined ampersand (spelled_of_code value operation inside)
      (.leaf (.number _)), ?_⟩
    have digits : (places : Int).repr.toList = Nat.toDigits 10 places := by
      simp [toList_repr_int]
    simp [shiftedText, digits, hexadecimal]

/-- The code of packed values is their text. -/
theorem packing_of_code {owner : Option String} {values : List Node} {widths : List Int}
    {room : Int} {terms : List String} (operations : values.all isOperation = true)
    (filled : values ≠ []) (paired : values.length = widths.length)
    (exact : room = widths.foldr (· + ·) 0)
    (found : packedCode owner room values widths = .ok terms) :
    Packing values widths (" | ".intercalate terms).toList := by
  induction values generalizing widths room terms with
  | nil => exact absurd rfl filled
  | cons value rest inductionHypothesis =>
    obtain ⟨width, later, rfl⟩ : ∃ width later, widths = width :: later :=
      List.exists_cons_of_length_eq_add_one paired.symm
    rw [List.all_cons, Bool.and_eq_true] at operations
    rw [List.foldr_cons] at exact
    have behind : room - width = later.foldr (· + ·) 0 := by omega
    simp only [packedCode, bind_ok_iff, pure_ok_iff, behind] at found
    obtain ⟨code, inside, mask, masked, others, further, rfl⟩ := found
    cases rest with
    | nil =>
      obtain rfl : later = [] := by simpa using paired
      cases further
      obtain ⟨field, positive, spelled, term⟩ :=
        shiftedText_of_term operations.1 inside masked 0
      rw [String.intercalate_singleton]
      exact term ▸ .last positive spelled
    | cons another more =>
      have packing := inductionHypothesis operations.2 (by simp) (by simpa using paired) rfl further
      obtain ⟨places, shift⟩ := Int.eq_ofNat_of_zero_le packing.room
      obtain ⟨field, positive, spelled, term⟩ :=
        shiftedText_of_term operations.1 inside masked places
      obtain ⟨second, last, rfl⟩ : ∃ second last, others = second :: last := by
        obtain ⟨size, sizes, rfl⟩ : ∃ size sizes, later = size :: sizes :=
          List.exists_cons_of_length_eq_add_one (by simpa using paired.symm)
        simp only [packedCode, bind_ok_iff, pure_ok_iff] at further
        obtain ⟨_, -, _, -, _, -, rfl⟩ := further
        exact ⟨_, _, rfl⟩
      rw [shift, String.intercalate_cons_cons, String.toList_append, String.toList_append, term]
      have bar : " | ".toList = [' ', '|', ' '] := by decide
      rw [bar, List.append_assoc]
      exact .more places positive spelled packing

/-- The code of unordered writes calls their function. -/
theorem statement_of_unordered {emission : Emission} {owner : Option String} {writes : List Node}
    {order code : String} (recorded : (Effect.ordering writes).Recorded emission)
    (found : unorderedCode emission.numbers owner writes order = .ok code) :
    ∃ body, Statement emission (.unordered (Node.unwrappedAll writes) (.text order)) .ordering
        body ∧
      code.toList = Start.ordering.text ++ body := by
  obtain ⟨id, listed⟩ := recorded
  have own := emission.numbers_numbered.orderings writes id listed
  unfold unorderedCode at found
  split at found
  · cases found
  · simp only [Numbers.ofOrdering, bind_ok_iff] at found
    obtain ⟨number, equal, width, -, found⟩ := found
    obtain rfl : id = number := by
      split at equal
      · cases equal
      · exact own.symm.trans (Except.ok.inj equal)
    split at found
    · cases found
    · simp only [bind_ok_iff, pure_ok_iff] at found
      obtain ⟨_, used, rfl⟩ := found
      have parts (start access : String) : (start ++ (access ++ order)).toList =
          (start ++ access).toList ++ order.toList := by
        simp only [String.toList_append, List.append_assoc]
      refine ⟨_, .unordered listed (isKnown_of_checkUse used), ?_⟩
      rw [Naming.orderingFunction, toList_callText Start.text_ordering, fieldAccess, parts]
      rfl

/-- The code of packed values writes them. -/
theorem statement_of_packed {emission : Emission} {owner : Option String} {values : List Node}
    {sizes : List Scalar} {code : String} (step : isStep (.packed values sizes) = true)
    (found : actionCode emission.numbers owner (.packed values sizes) = .ok code) :
    ∃ body, Statement emission (Node.packed values sizes).unwrapped .write body ∧
      code.toList = Start.write.text ++ body := by
  simp only [isStep, Bool.and_eq_true, Bool.not_eq_true', beq_iff_eq] at step
  obtain ⟨⟨⟨filled, paired⟩, operations⟩, whole⟩ := step
  simp only [actionCode, bind_ok_iff, pure_ok_iff] at found
  obtain ⟨terms, inside, rfl⟩ := found
  have widths : sizes.map Scalar.whole? = (sizes.map Node.fieldWidth).map some := by
    rw [List.map_map]
    refine List.map_congr_left fun size member => ?_
    obtain ⟨width, number⟩ := Option.isSome_iff_exists.mp (List.all_eq_true.mp whole size member)
    simp [Node.fieldWidth, number]
  have packing := packing_of_code operations (by simpa using filled)
    (by rw [List.length_map, paired]) rfl inside
  rw [toList_writeText, Node.unwrapped, unwrappedAll_operations operations]
  exact ⟨_, .packed widths packing, rfl⟩

/-- The code of a call performs the function of its routine. -/
theorem statement_of_call {emission : Emission} {owner : Option String} {routine : Node}
    {code : String} (recorded : (Effect.routine routine).Recorded emission)
    (found : actionCode emission.numbers owner (.call routine) = .ok code) :
    ∃ body, Statement emission (Node.call routine).unwrapped .routine body ∧
      code.toList = Start.routine.text ++ body := by
  obtain ⟨known, listed⟩ := recorded
  have own := emission.numbers_numbered.routines routine known listed
  simp only [actionCode, Numbers.ofRoutine, bind_ok_iff, pure_ok_iff] at found
  obtain ⟨id, number, rfl⟩ := found
  obtain rfl : known = id := by
    split at number
    · cases number
    · exact own.symm.trans (Except.ok.inj number)
  rw [Naming.routineFunction, toList_callText Start.text_routine, Node.unwrapped]
  exact ⟨_, .call listed, rfl⟩

/-- The code of a branch before that of other actions. Long constants are kept out of sight, since
rewriting would spell them out. -/
theorem performed_of_branch {emission : Emission} {condition : Node}
    {taken otherwise nodes : List Node} {test first second : String} {behind : List Char}
    (spelled : Spelled condition test.toList) (onTaken : Performed emission taken first.toList)
    (onOtherwise : Performed emission otherwise second.toList)
    (rest : Performed emission nodes behind) :
    Performed emission (.branch condition taken otherwise :: nodes)
      ((if otherwise.isEmpty then "if(" ++ test ++ ") \x7b\n" ++ first ++ "\x7d\n"
        else "if(" ++ test ++ ") \x7b\n" ++ first ++ "\x7d else \x7b\n" ++ second ++
          "\x7d\n").toList ++ behind) := by
  have opened (start middle tail : String) {more : List Char} :
      (start ++ test ++ middle ++ first ++ tail).toList ++ more =
        start.toList ++ (test.toList ++ (middle.toList ++ (first.toList ++
          (tail.toList ++ more)))) := by
    simp only [String.toList_append, List.append_assoc]
  have closed (head middle ending : String) {more : List Char} :
      (head ++ middle ++ second ++ ending).toList ++ more =
        (head ++ middle).toList ++ (second.toList ++ (ending.toList ++ more)) := by
    simp only [String.toList_append, List.append_assoc]
  cases otherwise with
  | nil =>
    rw [List.isEmpty_nil, if_pos rfl, opened]
    exact .branch spelled onTaken .nil rest
  | cons node others =>
    have whole := Performed.branch spelled onTaken onOtherwise rest
    rw [List.isEmpty_cons, if_neg Bool.false_ne_true, closed, opened]
    simpa only [closing, List.isEmpty_cons, Bool.false_eq_true, if_false, List.append_assoc]
      using whole

mutual

/-- The code of an action before that of others is a text of all of them. -/
theorem performed_of_action {emission : Emission} {owner : Option String} :
    (node : Node) → {code : String} → {nodes : List Node} → {behind : List Char} →
    isStep node = true → (∀ effect ∈ effects node, effect.Recorded emission) →
    actionCode emission.numbers owner node = .ok code → Performed emission nodes behind →
    Performed emission (node.unwrapped :: nodes) (code.toList ++ behind)
  | .write value size, _, _, _, step, _, found, rest => by
    simp only [actionCode, bind_ok_iff, pure_ok_iff] at found
    obtain ⟨written, inside, rfl⟩ := found
    rw [toList_writeText, List.append_assoc, Node.unwrapped, unwrapped_operation value step]
    exact .statement (.write size (spelled_of_code value step inside)) rest
  | .packed values sizes, _, _, _, step, _, found, rest => by
    obtain ⟨body, statement, written⟩ := statement_of_packed step found
    rw [written, List.append_assoc]
    exact .statement statement rest
  | .branch condition taken otherwise, _, _, _, step, recorded, found, rest => by
    simp only [isStep, Bool.and_eq_true] at step
    simp only [effects, List.mem_append] at recorded
    simp only [actionCode, bind_ok_iff] at found
    obtain ⟨test, tested, first, onTaken, found⟩ := found
    have spelled := spelled_of_code condition step.1.1 tested
    have performed := performed_of_code taken step.1.2
      (fun effect member => recorded effect (.inl (.inr member))) onTaken
    rw [Node.unwrapped, unwrapped_operation condition step.1.1]
    cases otherwise with
    | nil =>
      cases found
      have nothing : Performed emission [] "".toList := .nil
      exact performed_of_branch spelled performed nothing rest
    | cons node nodes =>
      simp only [List.isEmpty_cons, Bool.false_eq_true, if_false, bind_ok_iff,
        pure_ok_iff] at found
      obtain ⟨second, onOtherwise, rfl⟩ := found
      have others := performed_of_code (node :: nodes) step.2
        (fun effect member => recorded effect (.inr member)) onOtherwise
      exact performed_of_branch spelled performed others rest
  | .abort message, _, _, _, _, _, found, rest => by
    rw [actionCode] at found
    cases found
    -- Long constants are kept out of sight, since rewriting would spell them out.
    have parts (start literal ending last : String) :
        (start ++ literal ++ ending ++ last).toList =
          start.toList ++ (literal.toList ++ (ending ++ last).toList) := by
      simp only [String.toList_append, List.append_assoc]
    rw [parts, List.append_assoc, Node.unwrapped]
    exact .statement (.abort message) rest
  | .call routine, _, _, _, _, recorded, found, rest => by
    obtain ⟨body, statement, written⟩ :=
      statement_of_call (recorded (.routine routine) (by simp [effects])) found
    rw [written, List.append_assoc]
    exact .statement statement rest
  | .unordered [single] order, _, _, _, step, recorded, found, rest => by
    simp only [isStep, areSteps, Bool.and_eq_true] at step
    rw [actionCode] at found
    rw [Node.unwrapped]
    exact performed_of_action single step.1.2.1 (by simpa [effects, effectsAll] using recorded)
      found rest
  | .unordered [] order, _, _, _, step, _, _, _ => by cases step
  | .unordered (first :: second :: more) order, _, _, _, step, recorded, found, rest => by
    cases order with
    | text order =>
      rw [actionCode] at found
      · obtain ⟨body, statement, written⟩ := statement_of_unordered
          (recorded (.ordering (first :: second :: more)) (by simp [effects])) found
        rw [written, List.append_assoc, Node.unwrapped_unordered (by simp)]
        exact .statement statement rest
      · simp
    | _ => simp [isStep] at step
  | .bare _, _, _, _, step, _, _, _ | .group _, _, _, _, step, _, _, _
  | .literal _, _, _, _, step, _, _, _ | .literalList _, _, _, _, step, _, _, _
  | .param _, _, _, _, step, _, _, _ | .isSet _, _, _, _, step, _, _, _
  | .unary _ _, _, _, _, step, _, _, _ | .binary _ _ _, _, _, _, step, _, _, _
  | .routine _ _, _, _, _, step, _, _, _ => by cases step

/-- The code of actions is a text of them. -/
theorem performed_of_code {emission : Emission} {owner : Option String} :
    (nodes : List Node) → {code : String} → areSteps nodes = true →
    (∀ effect ∈ effectsAll nodes, effect.Recorded emission) →
    codeAll emission.numbers owner nodes = .ok code →
    Performed emission (Node.unwrappedAll nodes) code.toList
  | [], _, _, _, found => by
    rw [codeAll] at found
    cases found
    exact .nil
  | node :: rest, _, steps, recorded, found => by
    simp only [codeAll, bind_ok_iff, pure_ok_iff] at found
    obtain ⟨first, own, others, later, rfl⟩ := found
    rw [areSteps, Bool.and_eq_true] at steps
    simp only [effectsAll, List.mem_append] at recorded
    rw [String.toList_append, Node.unwrappedAll]
    exact performed_of_action node steps.1 (fun effect member => recorded effect (.inl member)) own
      (performed_of_code rest steps.2 (fun effect member => recorded effect (.inr member)) later)

end

/-- A function keeps its number while the ledgers grow. -/
theorem Effect.Recorded.grown {effect : Effect} {before after : Emission}
    (recorded : effect.Recorded before) (routines : before.routines.Grown after.routines)
    (orderings : before.orderings.Grown after.orderings) : effect.Recorded after := by
  cases effect with
  | routine target =>
    obtain ⟨id, found⟩ := recorded
    exact ⟨id, routines.id? found⟩
  | ordering writes =>
    obtain ⟨id, found⟩ := recorded
    exact ⟨id, orderings.id? found⟩
  | use name => trivial
  | impose order items => trivial
  | fail => trivial

/-- An effect that is performed lets the ledgers grow and is recorded in them. -/
theorem Effect.recorded_perform (id : Nat) (emission : Emission) (effect : Effect) :
    emission.routines.Grown (effect.perform id emission).routines ∧
      emission.orderings.Grown (effect.perform id emission).orderings ∧
      effect.Recorded (effect.perform id emission) := by
  cases effect with
  | routine target =>
    obtain ⟨extended, routines⟩ := emission.requestRoutine_extends none target id
    refine ⟨extended.routines, extended.orderings, emission.routineId target id, ?_⟩
    rw [Effect.perform, routines]
    exact emission.routines.id?_request target id
  | ordering writes =>
    exact ⟨.refl _, emission.orderings.request_grown writes id, _,
      emission.orderings.id?_request writes id⟩
  | use name => exact ⟨.refl _, .refl _, trivial⟩
  | impose order items => exact ⟨.refl _, .refl _, trivial⟩
  | fail => exact ⟨.refl _, .refl _, trivial⟩

/-- Effects that are performed one after the other are all recorded. -/
theorem Effect.recorded_performAll (id : Nat) (effects : List Effect) (emission : Emission) :
    emission.routines.Grown (performAll id effects emission).routines ∧
      emission.orderings.Grown (performAll id effects emission).orderings ∧
      ∀ effect ∈ effects, effect.Recorded (performAll id effects emission) := by
  induction effects generalizing emission with
  | nil => exact ⟨.refl _, .refl _, by simp⟩
  | cons effect rest inductionHypothesis =>
    obtain ⟨routines, orderings, own⟩ := effect.recorded_perform id emission
    obtain ⟨further, later, others⟩ := inductionHypothesis (effect.perform id emission)
    exact ⟨routines.trans further, orderings.trans later,
      List.forall_mem_cons.mpr ⟨own.grown further later, others⟩⟩

/-- Actions that have been translated are read from their code, also when the ledgers have
grown since. -/
theorem performed_of_actions {site : Site} {nodes : List Node} {before middle after : Emission}
    {text : String} (steps : areSteps nodes = true)
    (written : actions site nodes before = .ok text middle)
    (routines : middle.routines.Grown after.routines)
    (orderings : middle.orderings.Grown after.orderings) :
    Performed after (Node.unwrappedAll nodes) text.toList := by
  have numbered : middle.Numbered after.numbers :=
    ⟨fun routine id found => after.numbers_numbered.routines routine id (routines.id? found),
      fun writes id found => after.numbers_numbered.orderings writes id (orderings.id? found)⟩
  have found := (action_finds site).2 nodes before
  rw [written] at found
  have changed := ((action_wrote site).2 nodes _ _ _ written).1
  have recorded := (Effect.recorded_performAll site.emitter (effectsAll nodes) before).2.2
  rw [← changed] at recorded
  exact performed_of_code nodes steps
    (fun effect member => (recorded effect member).grown routines orderings)
    (found.2 after.numbers numbered)

/-- Writing actions lets the ledgers grow. -/
theorem grown_of_actions {site : Site} {nodes : List Node} {before after : Emission}
    {text : String} (written : actions site nodes before = .ok text after) :
    before.routines.Grown after.routines ∧ before.orderings.Grown after.orderings := by
  have found := (action_finds site).2 nodes before
  rw [written] at found
  exact ⟨found.1.routines, found.1.orderings⟩

/-- An expression that has been translated is read from its code. -/
theorem spelled_of_expression {site : Site} {node : Node} {before after : Emission}
    {text : String} (operation : isOperation node = true)
    (written : expression site node before = .ok text after) : Spelled node text.toList := by
  have found := expression_finds site node before
  rw [written] at found
  exact spelled_of_code node operation (found.2 _ after.numbers_numbered)

/-- Translation loses no information. Two lists of actions that are translated one after the
other, while the ledgers only grow in between, have the same code only if they are the same,
up to the names of routines and up to single unordered writes; two expressions have the same
code only if they are equal. -/
theorem same_of_translation :
    (∀ (one two : Site) (first second : List Node) (before middle later after : Emission)
      (text : String), areSteps first = true → areSteps second = true →
      actions one first before = .ok text middle →
      middle.routines.Grown later.routines → middle.orderings.Grown later.orderings →
      actions two second later = .ok text after →
      Node.sameAll (Node.unwrappedAll first) (Node.unwrappedAll second) = true) ∧
    (∀ (one two : Site) (first second : Node) (before middle later after : Emission)
      (text : String), isOperation first = true → isOperation second = true →
      expression one first before = .ok text middle →
      expression two second later = .ok text after → first = second) := by
  constructor
  · intro one two first second before middle later after text steps stepsToo written routines
      orderings writtenToo
    obtain ⟨further, more⟩ := grown_of_actions writtenToo
    have start := performed_of_actions steps written (routines.trans further)
      (orderings.trans more)
    have rest := performed_of_actions stepsToo writtenToo (.refl _) (.refl _)
    have nothing : EndsBlock [] := by simp [EndsBlock]
    exact (start.append rest nothing nothing rfl).1
  · intro one two first second before middle later after text operation operationToo written
      writtenToo
    have start := spelled_of_expression operation written
    have rest := spelled_of_expression operationToo writtenToo
    have nothing : EndsOperand [] := by simp [EndsOperand]
    exact (start.append rest nothing nothing rfl).1

/-- Whether two lists of actions that are translated one after the other have the same code. -/
def sameCode (one two : Site) (first second : List Node) : Emit Bool := do
  let text ← actions one first
  let other ← actions two second
  return text == other

/-- A write that stands alone among unordered writes, and a call of a routine. -/
def wrappedSteps : List Node :=
  [.unordered [.write (.unary "-" (.literal (.number (-1)))) 8] (.text "legacy_prefix_order"),
    .call (.routine "load" [.abort "no form"])]

/-- The same write without others, and a call of the same routine under another name. -/
def plainSteps : List Node :=
  [.write (.unary "-" (.literal (.number (-1)))) 8, .call (.routine "store" [.abort "no form"])]

/-- Both have the same code, and the constant that they negate has a code. -/
theorem same_of_wrappedSteps : ∃ text constant middle after,
    actions ⟨0, some "mov"⟩ wrappedSteps .empty = .ok text middle ∧
    actions ⟨1, some "add"⟩ plainSteps middle = .ok text after ∧
    Node.sameAll (Node.unwrappedAll wrappedSteps) (Node.unwrappedAll plainSteps) = true ∧
    expression ⟨0, some "mov"⟩ (.literal (.number (-1))) .empty = .ok constant .empty ∧
    Node.literal (.number (-1)) = .literal (.number (-1)) := by
  have evaluated :
      (match sameCode ⟨0, some "mov"⟩ ⟨1, some "add"⟩ wrappedSteps plainSteps .empty with
      | .ok equal _ => equal
      | .error .. => false) = true := by
    decide +kernel
  split at evaluated
  · next equal after ran =>
    simp only [sameCode, Steps.bind_ok_iff, Steps.pure_ok_iff] at ran
    obtain ⟨text, middle, first, other, last, second, rfl, -⟩ := ran
    obtain rfl := eq_of_beq evaluated
    exact ⟨text, _, middle, last, first, second,
      same_of_translation.1 _ _ _ _ _ _ _ _ _ (by decide +kernel) (by decide +kernel) first
        (.refl _) (.refl _) second, rfl,
      same_of_translation.2 ⟨0, some "mov"⟩ ⟨0, some "mov"⟩ _ _ .empty .empty .empty .empty _
        rfl rfl rfl rfl⟩
  · cases evaluated

end EncoderTables.Generator
