import EncoderTables.Proofs.Generator.Functions

/-!
# Bodies of instructions

The functions of instructions are emitted before any shared function, so nothing is merged
while their bodies are written. What is then known about an instruction is exactly what
its own body says: the parameters that it reads, each once and in the order of first use,
and the domains that it imposes, of which a later one replaces an earlier.
-/

namespace EncoderTables

namespace Node

mutual

/-- The unordered writes whose order the body of an action selects: the selecting parameter
and the number of writes, in the order of the code. -/
def groups : Node → List (String × Nat)
  | .branch _ taken otherwise => groupsAll taken ++ groupsAll otherwise
  | .unordered writes order =>
    if writes.length = 1 then groupsAll writes else [(order.plain, writes.length)]
  | _ => []

/-- The unordered writes whose order the body of several actions selects. -/
def groupsAll : List Node → List (String × Nat)
  | [] => []
  | node :: rest => groups node ++ groupsAll rest

end

end Node

namespace Generator

open Node Steps

/-- The domains that bodies with groups of unordered writes impose, each parameter with
its last one. -/
def imposedBy (groups : List (String × Nat)) : List (String × Domain) :=
  Emitter.ofEntries (groups.map fun group => (group.1, Effect.orders group.2))

/-- Uses impose nothing. -/
@[simp]
theorem filterMap_imposed_uses (names : List String) :
    (uses names).filterMap Effect.imposed? = [] := by
  induction names with
  | nil => rfl
  | cons name rest inductionHypothesis =>
    simp [uses, Effect.imposed?]

mutual

/-- The effects of an action impose the orders of its groups. -/
theorem filterMap_imposed_effects : (node : Node) →
    (effects node).filterMap Effect.imposed? =
      (groups node).map fun group => (group.1, Effect.orders group.2)
  | .write .. | .packed .. => by simp [effects, groups]
  | .branch _ taken otherwise => by
    simp [effects, groups, filterMap_imposed_effectsAll taken,
      filterMap_imposed_effectsAll otherwise]
  | .unordered writes _ => by
    by_cases single : writes.length = 1
    · simp [effects, groups, single, filterMap_imposed_effectsAll writes]
    · simp only [effects, groups, single, if_false]
      rfl
  | .bare _ | .group _ | .literal _ | .literalList _ | .param _ | .isSet _ | .unary .. |
    .binary .. | .abort _ | .routine .. | .call _ => by
    simp [effects, groups, Effect.imposed?]

/-- The effects of several actions impose the orders of their groups. -/
theorem filterMap_imposed_effectsAll : (nodes : List Node) →
    (effectsAll nodes).filterMap Effect.imposed? =
      (groupsAll nodes).map fun group => (group.1, Effect.orders group.2)
  | [] => rfl
  | node :: rest => by
    simp [effectsAll, groupsAll, filterMap_imposed_effects node,
      filterMap_imposed_effectsAll rest]

end

namespace Emitter

/-- What an effect records about the body itself. -/
def take (emitter : Emitter) : Effect → Emitter
  | .use name => emitter.use name
  | .impose order items => emitter.impose order (Effect.orders items)
  | .fail => { emitter with canFail := true }
  | .ordering _ | .routine _ => emitter

/-- What several effects record about the body itself. -/
def takeAll (emitter : Emitter) (effects : List Effect) : Emitter := effects.foldl take emitter

/-- Effects record the parameters that they use. -/
theorem parameters_takeAll (emitter : Emitter) (effects : List Effect) :
    (emitter.takeAll effects).parameters =
      emitter.parameters ++ missingNames emitter.parameters (effects.filterMap Effect.used?) := by
  induction effects generalizing emitter with
  | nil => simp [takeAll, missingNames]
  | cons effect rest inductionHypothesis =>
    have step : (emitter.takeAll (effect :: rest)) = (emitter.take effect).takeAll rest := rfl
    rw [step, inductionHypothesis]
    cases effect with
    | use name =>
      have split : (Effect.use name :: rest).filterMap Effect.used? =
          [name] ++ rest.filterMap Effect.used? := rfl
      rw [split, missingNames_append, take, Emission.parameters_use, List.append_assoc]
    | _ => rfl

/-- Effects record the domains that they impose. -/
theorem domains_takeAll (emitter : Emitter) (effects : List Effect) :
    (emitter.takeAll effects).domains =
      (effects.filterMap Effect.imposed?).foldl
        (fun known entry => setEntry entry.1 entry.2 known) emitter.domains := by
  induction effects generalizing emitter with
  | nil => rfl
  | cons effect rest inductionHypothesis =>
    have step : (emitter.takeAll (effect :: rest)) = (emitter.take effect).takeAll rest := rfl
    rw [step, inductionHypothesis]
    cases effect with
    | use name =>
      have unchanged : (emitter.use name).domains = emitter.domains := by
        unfold Emitter.use
        split <;> rfl
      rw [take, unchanged]
      rfl
    | _ => rfl

/-- The emitter of an instruction once its body has been written. -/
def ofBody (instruction : Instruction) : Emitter :=
  (Emitter.fresh (some instruction) (.listed [])).takeAll (effectsAll instruction.encoding)

/-- An instruction first knows what its own body reads, in the order of first use. -/
theorem ofBody_parameters (instruction : Instruction) :
    (ofBody instruction).parameters = missingNames [] (bodyReadsAll instruction.encoding) := by
  rw [ofBody, parameters_takeAll, filterMap_effectsAll]
  rfl

/-- An instruction imposes the orders of its groups. -/
theorem ofBody_domains (instruction : Instruction) :
    (ofBody instruction).domains = imposedBy (groupsAll instruction.encoding) := by
  rw [ofBody, domains_takeAll, filterMap_imposed_effectsAll]
  rfl

end Emitter

/-- Before a function is emitted that could be called, effects only record what they say
about the body itself. -/
theorem performAll_emitters (id : Nat) (effects : List Effect) {emission : Emission}
    (fresh : emission.emitted = []) :
    (Effect.performAll id effects emission).emitters =
      emission.emitters.modify id (·.takeAll effects) := by
  induction effects generalizing emission with
  | nil => exact (List.modify_id id emission.emitters).symm
  | cons effect rest inductionHypothesis =>
    have step : (effect.perform id emission).emitters =
        emission.emitters.modify id (·.take effect) := by
      cases effect with
      | use name => rfl
      | impose order items => rfl
      | fail => rfl
      | ordering writes => exact (List.modify_id id emission.emitters).symm
      | routine target =>
        have bare : (emission.requestRoutine target id).2 = emission.askRoutine target id := by
          rw [Emission.requestRoutine_snd, fresh]
          rfl
        rw [Effect.perform, bare]
        exact (List.modify_id id emission.emitters).symm
    have still : (effect.perform id emission).emitted = [] := by
      rw [(Emission.perform_frame id emission effect).2.1, fresh]
    rw [Effect.performAll_cons, inductionHypothesis still, step, List.modify_modify_eq]
    rfl

/-- A change of the last member of a list. -/
theorem modify_append_last {α : Type} (members : List α) (last : α) (change : α → α) :
    (members ++ [last]).modify members.length change = members ++ [change last] := by
  induction members with
  | nil => rfl
  | cons first rest inductionHypothesis => simpa using inductionHypothesis

/-- The place of an instruction, whose function nobody calls. -/
def ownPlace (instruction : Instruction) : Option Instruction × Callers :=
  (some instruction, .listed [])

/-- The functions of instructions are emitted one after the other, each with an emitter
that knows what the instruction's body says. -/
theorem emitInstructions_emitted {instructions : List Instruction} {before after : Session}
    {functions : List Code.Element} (consistent : before.emission.Consistent none)
    (unshared : before.emission.Unshared) (fresh : before.emission.emitted = [])
    (made : emitInstructions instructions before = .ok functions after) :
    Emission.Emitted (instructions.map ownPlace) before.emission after.emission ∧
      after.emission.emitted = [] ∧
      after.emission.emitters =
        before.emission.emitters ++ instructions.map Emitter.ofBody ∧
      after = { before with
        emission := after.emission
        instructionEmitters := before.instructionEmitters ++
          List.range' before.emission.emitters.length instructions.length } := by
  induction instructions generalizing before after functions with
  | nil =>
    simp only [emitInstructions, pure_ok_iff] at made
    obtain ⟨-, rfl⟩ := made
    exact ⟨.refl consistent, fresh, by simp, by simp⟩
  | cons instruction rest inductionHypothesis =>
    obtain ⟨function, written, others, own, remaining, -⟩ := emitInstructions_cons_ok_iff.mp made
    have wrote := instructionFunction_wrote own
    obtain ⟨body, still, -⟩ := consistent.body (ownPlace instruction)
      (fun _ => ⟨rfl, unshared⟩) (by simp [ownPlace]) rfl wrote
    have emitted := body.instruction
    have emitters : written.emitters =
        before.emission.emitters ++ [Emitter.ofBody instruction] := by
      have start : (before.emission.add (.fresh (some instruction) (.listed []))).2.emitted = [] :=
        fresh
      rw [wrote.1]
      refine (performAll_emitters _ _ start).trans ?_
      exact modify_append_last ..
    have alone : written.Unshared := by
      intro place member
      rw [emitted.places, List.mem_append, List.mem_singleton] at member
      rcases member with old | rfl
      · exact unshared place old
      · rfl
    obtain ⟨finished, none, all, state⟩ :=
      inductionHypothesis emitted.consistent alone (still.trans fresh) remaining
    refine ⟨emitted.trans finished, none, ?_, ?_⟩
    · rw [all, emitters, List.append_assoc]
      rfl
    · rw [state]
      simp [emitters, List.range'_succ]

end Generator

end EncoderTables
