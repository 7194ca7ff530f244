import EncoderTables.Proofs.Sharing.Requests
import Mathlib.Data.List.Induction

/-!
# Sequences of requests

Requests are made one after the other, beginning with an empty ledger. A ledger grows at its end,
so each law of a sequence is found from that of one more request behind it: which id a request is
given, which keys stand in the ledger, and who has requested a key.
-/

namespace EncoderTables.Ledger

variable {κ γ : Type} [BEq κ]

/-- Request several keys one after the other: the ids that they are given, and the ledger behind
the requests. -/
def requestAll (ledger : Ledger κ γ) : (requests : List (κ × γ)) → List Nat × Ledger κ γ
  | [] => ([], ledger)
  | (key, consumer) :: rest =>
    let (id, next) := ledger.request key consumer
    let (ids, last) := next.requestAll rest
    (id :: ids, last)

/-- The ids that requests are given from the beginning on. -/
def idsOf (requests : List (κ × γ)) : List Nat := (empty.requestAll requests).1

/-- The ledger behind requests from the beginning on. -/
def ofRequests (requests : List (κ × γ)) : Ledger κ γ := (empty.requestAll requests).2

/-- The consumers of the requests for a key, in the order of the requests. -/
def requesters (requests : List (κ × γ)) (key : κ) : List γ :=
  (requests.filter (·.1 == key)).map (·.2)

/-- Requests after requests. -/
theorem requestAll_append (ledger : Ledger κ γ) (front back : List (κ × γ)) :
    ledger.requestAll (front ++ back) =
      ((ledger.requestAll front).1 ++ ((ledger.requestAll front).2.requestAll back).1,
        ((ledger.requestAll front).2.requestAll back).2) := by
  induction front generalizing ledger with
  | nil => rfl
  | cons request rest inductionHypothesis =>
    simp only [List.cons_append, requestAll, inductionHypothesis]

/-- Each request is given an id. -/
theorem length_requestAll (ledger : Ledger κ γ) (requests : List (κ × γ)) :
    (ledger.requestAll requests).1.length = requests.length := by
  induction requests generalizing ledger with
  | nil => rfl
  | cons request rest inductionHypothesis =>
    simp only [requestAll, List.length_cons, inductionHypothesis]

/-- Requests leave all that has been recorded before. -/
theorem requestAll_grown (ledger : Ledger κ γ) (requests : List (κ × γ)) :
    Grown ledger (ledger.requestAll requests).2 := by
  induction requests generalizing ledger with
  | nil => exact .refl ledger
  | cons request rest inductionHypothesis =>
    exact (request_grown ledger request.1 request.2).trans (inductionHypothesis _)

/-- Further requests leave all that has been recorded from the beginning on. -/
theorem ofRequests_grown (front back : List (κ × γ)) :
    Grown (ofRequests front) (ofRequests (front ++ back)) := by
  rw [ofRequests, ofRequests, requestAll_append]
  exact requestAll_grown _ back

/-- The ledger behind one more request. -/
theorem ofRequests_append_singleton (requests : List (κ × γ)) (key : κ) (consumer : γ) :
    ofRequests (requests ++ [(key, consumer)]) =
      ((ofRequests requests).request key consumer).2 := by
  rw [ofRequests, requestAll_append]
  rfl

/-- The id that one more request is given. -/
theorem idsOf_append_singleton (requests : List (κ × γ)) (key : κ) (consumer : γ) :
    idsOf (requests ++ [(key, consumer)]) =
      idsOf requests ++ [((ofRequests requests).request key consumer).1] := by
  rw [idsOf, requestAll_append]
  rfl

/-- A request is given its id by the ledger behind the requests before it. -/
theorem getElem?_idsOf {requests : List (κ × γ)} {place : Nat} {key : κ} {consumer : γ}
    (asked : requests[place]? = some (key, consumer)) :
    (idsOf requests)[place]? =
      some ((ofRequests (requests.take place)).request key consumer).1 := by
  obtain ⟨inside, here⟩ := List.getElem?_eq_some_iff.mp asked
  have before : (empty.requestAll (requests.take place)).1.length = place := by
    rw [length_requestAll, List.length_take, Nat.min_eq_left (Nat.le_of_lt inside)]
  have split : idsOf requests = idsOf (requests.take place ++ requests.drop place) := by
    rw [List.take_append_drop]
  rw [split, idsOf, requestAll_append, List.getElem?_append_right (Nat.le_of_eq before), before,
    Nat.sub_self, List.drop_eq_getElem_cons inside, here]
  rfl

/-- The keys of a ledger are distinct. -/
theorem distinct_ofRequests (requests : List (κ × γ)) : (ofRequests requests).Distinct := by
  induction requests using List.reverseRecOn with
  | nil => exact .nil
  | append_singleton front request inductionHypothesis =>
    rw [ofRequests_append_singleton]
    exact inductionHypothesis.request ..

/-- The ids that are given, each where it is given first, are those below the size of the
ledger in their order. -/
theorem eraseDups_idsOf (requests : List (κ × γ)) :
    (idsOf requests).eraseDups = List.range (ofRequests requests).size := by
  induction requests using List.reverseRecOn with
  | nil => rfl
  | append_singleton front request inductionHypothesis =>
    obtain ⟨key, consumer⟩ := request
    rw [idsOf_append_singleton, ofRequests_append_singleton, List.eraseDups_append,
      inductionHypothesis, size_request, Ledger.request]
    have given (id : Nat) : id ∈ idsOf front ↔ id < (ofRequests front).size := by
      rw [← List.mem_eraseDups, inductionHypothesis, List.mem_range]
    cases known : (ofRequests front).id? key with
    | none =>
      have fresh : (ofRequests front).size ∉ idsOf front := by simp [given]
      simp [List.removeAll, fresh, List.eraseDups_cons, List.range_succ]
    | some id =>
      have inside : id ∈ idsOf front :=
        (given id).mpr (List.findIdx?_eq_some_iff_getElem.mp known).1
      simp [List.removeAll, inside]

variable [EquivBEq κ]

/-- The id that a request is given remains the one of every key that equals the requested one,
whatever else is requested. -/
theorem exists_idsOf {requests : List (κ × γ)} {place : Nat} {asked : κ × γ}
    (here : requests[place]? = some asked) :
    ∃ id, (idsOf requests)[place]? = some id ∧
      ∀ more key, (asked.1 == key) = true →
        (ofRequests (requests ++ more)).id? key = some id := by
  obtain ⟨own, consumer⟩ := asked
  refine ⟨_, getElem?_idsOf here, fun more key equal => ?_⟩
  obtain ⟨inside, there⟩ := List.getElem?_eq_some_iff.mp here
  have split : requests ++ more =
      requests.take place ++ [(own, consumer)] ++ (requests.drop (place + 1) ++ more) := by
    rw [← there, ← List.append_assoc, List.append_assoc (requests.take place),
      List.singleton_append, ← List.drop_eq_getElem_cons inside, List.take_append_drop]
  rw [split, ← id?_congr _ equal]
  apply (ofRequests_grown _ _).id?
  rw [ofRequests_append_singleton]
  exact id?_request ..

/-- Two requests are given the same id exactly if their keys are equal. -/
theorem idsOf_eq_iff {requests : List (κ × γ)} {first later : Nat} {former asked : κ × γ}
    (one : requests[first]? = some former) (two : requests[later]? = some asked) :
    (idsOf requests)[first]? = (idsOf requests)[later]? ↔ (former.1 == asked.1) = true := by
  obtain ⟨id, given, found⟩ := exists_idsOf one
  obtain ⟨other, givenToo, foundToo⟩ := exists_idsOf two
  have number := found [] _ BEq.rfl
  have numberToo := foundToo [] _ BEq.rfl
  rw [given, givenToo, Option.some.injEq]
  constructor
  · rintro rfl
    obtain ⟨key, there, equal⟩ := key?_of_id? number
    obtain ⟨again, thereToo, equalToo⟩ := key?_of_id? numberToo
    obtain rfl := Option.some.inj (there.symm.trans thereToo)
    exact BEq.trans (BEq.symm equal) equalToo
  · intro equal
    exact Option.some.inj ((found [] _ equal).symm.trans numberToo)

/-- Of the equal keys that are requested, the first one is kept. -/
theorem find?_keys (requests : List (κ × γ)) (key : κ) :
    (ofRequests requests).keys.find? (· == key) = (requests.map (·.1)).find? (· == key) := by
  induction requests using List.reverseRecOn with
  | nil => rfl
  | append_singleton front request inductionHypothesis =>
    rw [ofRequests_append_singleton, keys_request_eq, List.map_append, List.find?_append,
      ← inductionHypothesis]
    split
    · next known =>
      cases equal : request.1 == key with
      | false => simp [equal]
      | true =>
        have found : ((ofRequests front).keys.find? (· == key)).isSome = true := by
          simpa [BEq.congr_right equal] using known
        obtain ⟨first, found⟩ := Option.isSome_iff_exists.mp found
        simp [found]
    · rw [List.find?_append]
      rfl

/-- The consumers of a key are those of the requests for it, if there are any. -/
theorem consumers?_ofRequests (requests : List (κ × γ)) (key : κ) :
    (ofRequests requests).consumers? key =
      if requests.any (·.1 == key) then some (requesters requests key) else none := by
  induction requests using List.reverseRecOn with
  | nil => rfl
  | append_singleton front request inductionHypothesis =>
    obtain ⟨asked, consumer⟩ := request
    rw [ofRequests_append_singleton, consumers?_request, inductionHypothesis]
    cases equal : asked == key with
    | false =>
      have others : (front ++ [(asked, consumer)]).any (·.1 == key) = front.any (·.1 == key) := by
        simp [equal]
      have same : requesters (front ++ [(asked, consumer)]) key = requesters front key := by
        simp [requesters, equal]
      rw [others, same, if_neg (by simp)]
    | true =>
      by_cases known : front.any (·.1 == key)
      · simp [requesters, equal, known]
      · have none : front.filter (·.1 == key) = [] := by simpa using known
        simp [requesters, equal, known, none]

/-- A key has no id as long as no equal key has been requested. -/
theorem id?_ofRequests_eq_none_iff (requests : List (κ × γ)) (key : κ) :
    (ofRequests requests).id? key = none ↔
      ∀ request ∈ requests, (request.1 == key) = false := by
  rw [← Option.isNone_iff_eq_none, ← Option.not_isSome, ← isSome_consumers?,
    consumers?_ofRequests]
  split
  · next asked => simpa using asked
  · next never => simpa using never

/-- A request for a new key is given the size that the ledger has at this moment. -/
theorem getElem?_idsOf_of_new {requests : List (κ × γ)} {place : Nat} {asked : κ × γ}
    (here : requests[place]? = some asked)
    (new : ∀ earlier ∈ requests.take place, (earlier.1 == asked.1) = false) :
    (idsOf requests)[place]? = some (ofRequests (requests.take place)).size := by
  have unknown := (id?_ofRequests_eq_none_iff _ asked.1).mpr new
  rw [getElem?_idsOf here, request, unknown, Option.getD_none]

/-- Under each id stands a key for good, and this id is the one of the key. -/
theorem exists_key? {requests : List (κ × γ)} {id : Nat}
    (inside : id < (ofRequests requests).size) :
    ∃ key, (ofRequests requests).id? key = some id ∧
      ∀ more, (ofRequests (requests ++ more)).key? id = some key := by
  have there : (ofRequests requests).key? id = some (ofRequests requests).entries[id].1 := by
    simp [key?, List.getElem?_eq_getElem inside]
  exact ⟨_, (distinct_ofRequests requests).id? there,
    fun more => (ofRequests_grown requests more).key? there⟩

/-- A requested key has an id, and an equal key stands under it. -/
theorem exists_id?_of_requested {requests : List (κ × γ)} {key : κ}
    (requested : ∃ asked ∈ requests, (asked.1 == key) = true) :
    ∃ id found, (ofRequests requests).id? key = some id ∧
      (ofRequests requests).key? id = some found ∧ (found == key) = true := by
  obtain ⟨asked, member, equal⟩ := requested
  obtain ⟨place, here⟩ := List.getElem?_of_mem member
  obtain ⟨id, -, found⟩ := exists_idsOf here
  have number := found [] key equal
  rw [List.append_nil] at number
  obtain ⟨first, there⟩ := key?_of_id? number
  exact ⟨id, first, number, there⟩

end EncoderTables.Ledger
