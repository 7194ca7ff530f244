import EncoderTables.Proofs.Encoding.Reads
import EncoderTables.Proofs.Generator.Bodies
import EncoderTables.Proofs.Steps

/-!
# Effects of function bodies

Writing the body of a function records things about it. What is recorded, and in which
order, is read off the actions alone: a list of effects. A body that can be written
changes the emission exactly by its effects, and only admitted effects let it be written.
Every law about bodies is therefore a law about single effects and lists of them.
-/

namespace EncoderTables.Generator

open Steps

/-- One thing that writing a body records about it. -/
inductive Effect where
  /-- The body reads a parameter. -/
  | use (name : String)
  /-- A parameter selects an order of a number of items. -/
  | impose (order : String) (items : Nat)
  /-- The body can fail. -/
  | fail
  /-- The body calls the function of unordered writes. -/
  | ordering (writes : List Node)
  /-- The body calls the function of a routine. -/
  | routine (target : Node)

namespace Effect

/-- The orders that a number of items has, as the domain of the selecting parameter. -/
def orders (items : Nat) : Domain := .interval 0 (Permutation.count items - 1 : Nat)

/-- Perform an effect for the body of an emitter. -/
def perform (id : Nat) (emission : Emission) : Effect → Emission
  | .use name => emission.update id (·.use name)
  | .impose order items => emission.update id (·.impose order (orders items))
  | .fail => emission.update id fun emitter => { emitter with canFail := true }
  | .ordering writes => (emission.requestOrdering writes id).2
  | .routine target => (emission.requestRoutine target id).2

/-- Perform several effects one after the other. -/
def performAll (id : Nat) (effects : List Effect) (emission : Emission) : Emission :=
  effects.foldl (perform id) emission

/-- An effect that a body can have: parameters are known, keys of shared functions have
fixed content, and a body with unordered writes belongs to an instruction and has a
parameter whose field can select each of the orders. -/
def Admitted (owner : Option String) : Effect → Prop
  | .use name => Parameters.isKnown name = true
  | .impose order items =>
    owner.isSome = true ∧ ∃ width, Parameters.fieldWidth order false = .ok width ∧
      Permutation.count items - 1 < Bits.capacity width
  | .fail => True
  | .ordering writes => owner.isSome = true ∧ Node.areFixed writes = true
  | .routine target => target.isFixed = true

/-- No effects change nothing. -/
@[simp]
theorem performAll_nil (id : Nat) (emission : Emission) : performAll id [] emission = emission :=
  rfl

/-- The first effect is performed before the others. -/
@[simp]
theorem performAll_cons (id : Nat) (effect : Effect) (effects : List Effect)
    (emission : Emission) :
    performAll id (effect :: effects) emission =
      performAll id effects (perform id emission effect) := rfl

/-- Effects are performed in their order. -/
@[simp]
theorem performAll_append (id : Nat) (first second : List Effect) (emission : Emission) :
    performAll id (first ++ second) emission =
      performAll id second (performAll id first emission) := by
  simp [performAll]

end Effect

/-- The effects of reading parameters. -/
def uses (names : List String) : List Effect := names.map .use

mutual

/-- The effects of an action. -/
def effects : Node → List Effect
  | .write value _ => uses value.expressionReads
  | .packed values sizes => uses (Node.packedReads values sizes)
  | .branch condition taken otherwise =>
    uses condition.expressionReads ++ effectsAll taken ++ effectsAll otherwise
  | .abort _ => [.fail]
  | .call routine => [.routine routine, .fail]
  | .unordered writes order =>
    if writes.length = 1 then effectsAll writes
    else [.ordering writes, .impose order.plain writes.length, .use order.plain, .fail]
  | _ => []

/-- The effects of several actions. -/
def effectsAll : List Node → List Effect
  | [] => []
  | node :: rest => effects node ++ effectsAll rest

end

/-- A step that has written a body changed the emission by the body's effects, and all of
them were admitted. -/
def Wrote (site : Site) (effects : List Effect) (before after : Emission) : Prop :=
  after = Effect.performAll site.emitter effects before ∧
    ∀ effect ∈ effects, effect.Admitted site.instruction

/-- Code that follows other code adds its effects. -/
theorem Wrote.append {site : Site} {first second : List Effect} {before middle after : Emission}
    (head : Wrote site first before middle) (tail : Wrote site second middle after) :
    Wrote site (first ++ second) before after := by
  obtain ⟨rfl, admittedFirst⟩ := head
  obtain ⟨rfl, admittedSecond⟩ := tail
  refine ⟨(Effect.performAll_append ..).symm, ?_⟩
  intro effect member
  rcases List.mem_append.mp member with member | member
  · exact admittedFirst effect member
  · exact admittedSecond effect member

/-- Code without effects. -/
theorem Wrote.refl (site : Site) (emission : Emission) : Wrote site [] emission emission := by
  simp [Wrote]

/-- Reading a known parameter. -/
theorem use_wrote {site : Site} {name : String} {before after : Emission} {value : Unit}
    (used : site.use name before = .ok value after) : Wrote site [.use name] before after := by
  unfold Site.use at used
  split at used
  · next known => simp_all [Wrote, Emit.update, Effect.perform, Effect.Admitted]
  · simp at used

/-- The uses of parameters that are read one after the other. -/
theorem uses_append (first second : List String) :
    uses (first ++ second) = uses first ++ uses second := List.map_append ..

/-- An expression only reads parameters. -/
theorem expression_wrote {site : Site} {node : Node} {before after : Emission} {code : String}
    (written : expression site node before = .ok code after) :
    Wrote site (uses node.expressionReads) before after := by
  induction node using Node.expression_induction generalizing before after code with
  | literal value =>
    simp only [expression, Emit.ofExcept_ok_iff] at written
    exact written.2 ▸ Wrote.refl site before
  | literalList items => simp [expression] at written
  | param name =>
    simp only [expression, bind_ok_iff, pure_ok_iff] at written
    obtain ⟨_, middle, used, -, rfl⟩ := written
    exact use_wrote used
  | isSet name =>
    rw [expression] at written
    split at written
    · simp at written
    · simp only [bind_ok_iff, pure_ok_iff] at written
      obtain ⟨_, middle, used, -, rfl⟩ := written
      exact use_wrote used
  | unary symbol inner inductionHypothesis =>
    simp only [expression, bind_ok_iff] at written
    obtain ⟨operand, middle, inside, rest⟩ := written
    have unchanged : middle = after := by
      split at rest
      · simp at rest
      · split at rest <;> simp_all
    exact unchanged ▸ inductionHypothesis inside
  | binary symbol left right leftHypothesis rightHypothesis =>
    simp only [expression, bind_ok_iff, pure_ok_iff] at written
    obtain ⟨first, middle, onLeft, second, last, onRight, -, rfl⟩ := written
    rw [Node.expressionReads, uses_append]
    exact (leftHypothesis onLeft).append (rightHypothesis onRight)
  | other node none =>
    rw [expression_other site none] at written
    cases written

/-- Packed values only read parameters, up to the last value that has a width. -/
theorem packedTerms_wrote {site : Site} {room : Int} {values : List Node}
    {sizes : List Scalar} {before after : Emission} {terms : List String}
    (written : packedTerms site room values (sizes.map Node.fieldWidth) before = .ok terms after) :
    Wrote site (uses (Node.packedReads values sizes)) before after := by
  induction values generalizing room sizes before after terms with
  | nil =>
    simp only [packedTerms, pure_ok_iff] at written
    exact written.2 ▸ Wrote.refl site before
  | cons value values inductionHypothesis =>
    cases sizes with
    | nil =>
      simp only [List.map_nil, packedTerms, pure_ok_iff] at written
      exact written.2 ▸ Wrote.refl site before
    | cons size sizes =>
      simp only [List.map_cons, packedTerms, bind_ok_iff, pure_ok_iff,
        Emit.ofExcept_ok_iff] at written
      obtain ⟨_, middle, first, _, _, ⟨-, rfl⟩, _, last, rest, -, rfl⟩ := written
      rw [Node.packedReads, uses_append]
      exact (expression_wrote first).append (inductionHypothesis rest)

/-- A recorded failure is one effect. -/
theorem markFailing_wrote {site : Site} {before after : Emission} {value : Unit}
    (marked : site.markFailing before = .ok value after) : Wrote site [.fail] before after := by
  simp_all [Site.markFailing, Emit.update, Wrote, Effect.perform, Effect.Admitted]

/-- The request of a routine is one effect. -/
theorem requestRoutine_wrote {site : Site} {routine : Node} {before after : Emission} {id : Nat}
    (requested : Emit.requestRoutine routine site.emitter before = .ok id after) :
    Wrote site [.routine routine] before after := by
  unfold Emit.requestRoutine at requested
  cases fixed : routine.isFixed with
  | false => simp [fixed] at requested
  | true => simp_all [Wrote, Effect.perform, Effect.Admitted]

/-- Several unordered writes request their function and give the domain of all orders to
the parameter that selects one, which the body reads. -/
theorem unorderedText_wrote {site : Site} {writes : List Node} {order : String}
    {before after : Emission} {code : String}
    (written : unorderedText site writes order before = .ok code after) :
    Wrote site [.ordering writes, .impose order writes.length, .use order, .fail] before after := by
  unfold unorderedText at written
  cases owned : site.instruction with
  | none => simp [owned] at written
  | some name =>
    cases fixed : Node.areFixed writes with
    | false => simp [owned, Emit.requestOrdering, fixed] at written
    | true =>
      simp only [owned, Option.isNone_some, Bool.false_eq_true, if_false, Emit.requestOrdering,
        fixed, Bool.not_true, bind_ok_iff, modifyGet_ok_iff, Emit.ofExcept_ok_iff] at written
      obtain ⟨_, middle, requested, width, _, ⟨known, rfl⟩, rest⟩ := written
      split at rest
      · simp at rest
      · next fits =>
        simp only [bind_ok_iff, pure_ok_iff] at rest
        obtain ⟨_, imposed, selected, _, used, read, _, _, marked, -, rfl⟩ := rest
        have tail := (use_wrote read).append (markFailing_wrote marked)
        simp only [Emit.update, modify_ok_iff] at selected
        have head : Wrote site [.ordering writes, .impose order writes.length] before imposed := by
          refine ⟨?_, ?_⟩
          · simp [Effect.perform, requested, ← selected, Effect.orders]
          · simp_all [Effect.Admitted]
        exact head.append tail

/-- Actions have exactly the effects that are read off them. -/
theorem action_wrote (site : Site) :
    (∀ node, ∀ before after code, action site node before = .ok code after →
      Wrote site (effects node) before after) ∧
    (∀ nodes, ∀ before after code, actions site nodes before = .ok code after →
      Wrote site (effectsAll nodes) before after) := by
  apply Node.action_induction
  case write =>
    intro value size before after code written
    simp only [action, bind_ok_iff, pure_ok_iff] at written
    obtain ⟨_, middle, inside, -, rfl⟩ := written
    exact expression_wrote inside
  case packed =>
    intro values sizes before after code written
    simp only [action, bind_ok_iff, pure_ok_iff] at written
    obtain ⟨_, middle, inside, -, rfl⟩ := written
    exact packedTerms_wrote inside
  case branch =>
    intro condition taken otherwise takenHypothesis otherwiseHypothesis before after code written
    simp only [action, bind_ok_iff] at written
    obtain ⟨_, middle, tested, _, last, onTaken, rest⟩ := written
    have head := (expression_wrote tested).append (takenHypothesis _ _ _ onTaken)
    cases otherwise with
    | nil =>
      simp at rest
      rw [effects, effectsAll, List.append_nil]
      exact rest.2 ▸ head
    | cons node nodes =>
      simp only [List.isEmpty_cons, Bool.false_eq_true, if_false, bind_ok_iff,
        pure_ok_iff] at rest
      obtain ⟨_, final, onOtherwise, -, rfl⟩ := rest
      exact head.append (otherwiseHypothesis _ _ _ onOtherwise)
  case abort =>
    intro message before after code written
    simp only [action, bind_ok_iff, pure_ok_iff] at written
    obtain ⟨_, middle, marked, -, rfl⟩ := written
    exact markFailing_wrote marked
  case call =>
    intro routine before after code written
    simp only [action, bind_ok_iff, pure_ok_iff] at written
    obtain ⟨_, middle, requested, _, last, marked, -, rfl⟩ := written
    exact (requestRoutine_wrote requested).append (markFailing_wrote marked)
  case single =>
    intro single order inductionHypothesis before after code written
    rw [action] at written
    simpa [effects, effectsAll] using inductionHypothesis before after code written
  case several =>
    intro writes order several before after code written
    rw [action_unordered site several] at written
    simpa [effects, several] using unorderedText_wrote written
  case other =>
    intro node none before after code written
    rw [action_other site none] at written
    cases written
  case nil =>
    intro before after code written
    simp only [actions, pure_ok_iff] at written
    exact written.2 ▸ Wrote.refl site before
  case cons =>
    intro node rest firstHypothesis restHypothesis before after code written
    simp only [actions, bind_ok_iff, pure_ok_iff] at written
    obtain ⟨_, middle, first, _, last, others, -, rfl⟩ := written
    exact (firstHypothesis _ _ _ first).append (restHypothesis _ _ _ others)

end EncoderTables.Generator
