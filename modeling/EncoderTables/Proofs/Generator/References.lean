import EncoderTables.Proofs.Code.Layout
import EncoderTables.Proofs.Generator.DomainConstants
import EncoderTables.Proofs.Generator.Members
import EncoderTables.Proofs.Generator.RunFunctions
import EncoderTables.Proofs.Generator.TableAgreement

/-!
# References of the instruction file

In the file of a complete run every reference is resolved by an earlier member. What bodies
call has been requested, so it has a number, a function of this number and the prototype of
this function, which stands before all code; unordered writes have been requested together
with the table of their orders. What rows name is defined by phases that describe the same
instructions, and stands before the rows.
-/

namespace EncoderTables.Generator

open Steps

section Prototypes

/-- A function is declared by its prototype. -/
theorem IsFunction.declares {comment : Code.Comment} {name : String}
    {parameters : List Code.Element} {texts : List String} {code : Except Failure String}
    {element : Code.Element} (printed : Code.Element.texts parameters = .ok texts)
    (function : IsFunction comment name parameters code element) : Declares element name := by
  obtain ⟨text, failing, -, rfl⟩ := function
  exact ⟨comment, texts, by rw [Code.Element.declaration, Code.Element.chunks, printed]; rfl⟩

/-- The function of unordered writes has a prototype. -/
theorem IsOrdering.declares {numbers : Numbers} {writes : List Node} {id : Nat}
    {element : Code.Element} (function : IsOrdering numbers writes id element) :
    Declares element (Naming.orderingFunction (toString id)) :=
  IsFunction.declares rfl function

/-- The function of a routine has a prototype. -/
theorem IsRoutine.declares {numbers : Numbers} {routine : Node} {id : Nat}
    {element : Code.Element} (function : IsRoutine numbers routine id element) :
    Declares element (Naming.routineFunction (toString id)) := by
  obtain ⟨_, _, -, own⟩ := function
  exact IsFunction.declares rfl own

end Prototypes

/-- Each member of a list has a partner in a list that is paired with it. -/
theorem exists_partner {α β : Type} {related : α → β → Prop} {firsts : List α} {seconds : List β}
    (paired : List.Forall₂ related firsts seconds) {first : α} (member : first ∈ firsts) :
    ∃ second ∈ seconds, related first second := by
  induction paired with
  | nil => cases member
  | cons own _ inductionHypothesis =>
    rcases List.mem_cons.mp member with rfl | later
    · exact ⟨_, List.mem_cons_self, own⟩
    · obtain ⟨second, listed, partner⟩ := inductionHypothesis later
      exact ⟨second, List.mem_cons_of_mem _ listed, partner⟩

/-- The members in front of all code: tables of orders, and prototypes of the shared functions
if there are any. -/
def Session.heads (session : Session) (shared : List Code.Element) : List Member :=
  session.emission.permutations.map Member.orders ++
  (if shared.isEmpty then [] else [Member.prototypes shared])

namespace Session.Emits

variable {set : InstructionSet} {session : Session}
  {instructions orderings routines : List Code.Element}

/-- The shared functions have prototypes. -/
theorem declared (emits : session.Emits set instructions orderings routines) :
    ∀ function ∈ orderings ++ routines, ∃ name, Declares function name := by
  intro function member
  rcases List.mem_append.mp member with ordering | routine
  · obtain ⟨_, -, own⟩ := exists_partner emits.orderings.flip ordering
    exact ⟨_, IsOrdering.declares own⟩
  · obtain ⟨_, -, own⟩ := exists_partner emits.routines.flip routine
    exact ⟨_, IsRoutine.declares own⟩

/-- What the body of an emitter calls is one of the shared functions: it has been requested,
and the number by which it is called is the one of its function. -/
theorem called (emits : session.Emits set instructions orderings routines)
    (complete : session.emission.Complete) {id : Nat} {name : String}
    (calls : name ∈ callsOf session.emission.numbers (session.emission.scopeOf id)) :
    ∃ function ∈ orderings ++ routines, Declares function name := by
  obtain ⟨effect, member, call⟩ := List.mem_filterMap.mp calls
  obtain ⟨-, performed⟩ := complete.consistent.settled id (by simp) effect member
  cases effect with
  | ordering writes =>
    obtain ⟨ordering, key, known, equal, -⟩ := performed
    obtain ⟨number, found, listed, place, -⟩ :=
      Ledger.exists_id? (Ledger.mem_keys known) ((Node.beq_eq_sameAll ..).trans equal)
    obtain rfl := session.emission.numbers_numbered.orderings writes number listed
    obtain ⟨function, inside, own⟩ :=
      exists_partner emits.orderings (List.mk_mem_zipIdx_iff_getElem?.mpr place)
    cases call
    exact ⟨function, List.mem_append_left _ inside, own.declares⟩
  | routine target =>
    obtain ⟨routine, key, known, equal, -⟩ := performed
    obtain ⟨found, place, -⟩ := numbers_found known equal
    obtain ⟨function, inside, own⟩ :=
      exists_partner emits.routines (List.mk_mem_zipIdx_iff_getElem?.mpr place)
    cases call
    exact ⟨function, List.mem_append_right _ inside, own.declares⟩
  | use | impose | fail => cases call

/-- The calls of a body are resolved in front of all code. -/
theorem resolved (emits : session.Emits set instructions orderings routines)
    (complete : session.emission.Complete) {id : Nat} {nodes : List Node} {reference : Reference}
    (scope : session.emission.scopeOf id = nodes)
    (calls : reference ∈ (callsOf session.emission.numbers nodes).map .call) :
    reference.ResolvedBy (session.heads (orderings ++ routines)) := by
  obtain ⟨name, stands, rfl⟩ := List.mem_map.mp calls
  obtain ⟨function, inside, declares⟩ := emits.called complete (scope ▸ stands)
  refine ⟨_, List.mem_append_right _ ?_, function, inside, declares⟩
  rw [if_neg (by simpa using List.ne_nil_of_mem inside)]
  exact List.mem_singleton_self _

end Session.Emits

/-- The members of the file of a session with certain shared functions and stubs of accessors. -/
def Session.members (set : InstructionSet) (session : Session)
    (shared stubs : List Code.Element) : List Member :=
  session.heads shared ++
  session.emission.orderings.keys.zipIdx.map (fun entry => Member.ordering entry.1 entry.2) ++
  session.emission.routines.keys.zipIdx.map (fun entry => Member.routine entry.1 entry.2) ++
  set.instructions.map Member.encoder ++
  session.encoded.map (fun entry => Member.mnemonic entry.1) ++
  (session.encoded.filter fun entry => !entry.1.operands.isEmpty).map Member.operands ++
  (session.registry.domains.map Member.domain ++
    [Member.domainCount session.registry.domains.length]) ++
  (session.encoded.filter fun entry => !entry.2.parameters.isEmpty).map Member.parameters ++
  [Member.instructions session.encoded] ++ [Member.instructionsReference session.encoded] ++
  stubs.map Member.stub

section Descriptions

variable {session : Session}

/-- A function has its name. -/
theorem IsFunction.named {comment : Code.Comment} {name : String}
    {parameters : List Code.Element} {code : Except Failure String} {element : Code.Element}
    (function : IsFunction comment name parameters code element) : element.name? = some name := by
  obtain ⟨_, _, -, rfl⟩ := function
  rfl

/-- The function of unordered writes looks their order up in the table for their number. -/
theorem IsOrdering.looksUp {numbers : Numbers} {writes : List Node} {id : Nat}
    {element : Code.Element} (function : IsOrdering numbers writes id element) :
    LooksUp ("permutations" ++ toString writes.length) element := by
  obtain ⟨text, failing, made, rfl⟩ := function
  simp only [orderingCode, Results.bind_ok_iff, Results.pure_ok_iff] at made
  obtain ⟨cases, -, rfl⟩ := made
  refine ⟨Naming.orderingFunction (toString id),
    [contextParameter, .parameter ⟨"order", .unsigned⟩],
    "for(unsigned i = 0; i < " ++ toString writes.length ++ "; i++) \x7b\n",
    cases ++ "default:\nevoasm_assert_not_reached();\n\x7d\n\x7d\n" ++
      bodyText "" failing, ?_⟩
  simp only [bodyText, Naming.permutationTable, String.append_assoc, String.empty_append]
  rfl

/-- The functions of a session are described by what they perform. -/
theorem Session.Emits.describe {set : InstructionSet}
    {instructions orderings routines : List Code.Element}
    (emits : session.Emits set instructions orderings routines) :
    List.Forall₂ (Member.Describes session)
        (session.emission.orderings.keys.zipIdx.map fun entry => .ordering entry.1 entry.2)
        orderings ∧
      List.Forall₂ (Member.Describes session)
        (session.emission.routines.keys.zipIdx.map fun entry => .routine entry.1 entry.2)
        routines ∧
      List.Forall₂ (Member.Describes session) (set.instructions.map .encoder) instructions := by
  simp only [List.forall₂_map_left_iff]
  refine ⟨emits.orderings.imp ?_, emits.routines.imp ?_, emits.instructions.imp ?_⟩
  · exact fun _ _ own => ⟨⟨own, own.looksUp⟩, IsFunction.named own⟩
  · rintro _ _ ⟨name, members, kind, own⟩
    exact ⟨⟨name, members, kind, own⟩, IsFunction.named own⟩
  · exact fun _ _ own => ⟨own, IsFunction.named own⟩

end Descriptions

end EncoderTables.Generator
