import EncoderTables.Proofs.Encoding.Matching
import EncoderTables.Proofs.Sharing.Directories

/-!
# What a ledger records

The ids that requests are given, and all that a ledger can be asked for behind them, are told by
the requests alone: by their keys, of which those with the same content count as one, and by
their consumers. The ids of shared functions are such ids, and the callers that are informed of
the parameters of a function are such consumers. A node without a fixed content is refused before
it reaches a ledger, so it leaves no trace there.
-/

namespace EncoderTables.Ledger

variable {κ γ : Type} [BEq κ]

/-- What the ids of requests and the ledger behind them tell of the requests, when alike keys
count as one key. -/
structure Recorded (alike : κ → κ → Prop) [DecidableRel alike] (requests : List (κ × γ)) :
    Prop where
  /-- Each request is given an id. -/
  answered : (idsOf requests).length = requests.length
  /-- Requests are given the same id exactly for alike keys. So a key that has been requested
  before is given the id of the first request for it. -/
  shared : ∀ {first later : Nat} {former asked : κ × γ}, requests[first]? = some former →
    requests[later]? = some asked →
    ((idsOf requests)[first]? = (idsOf requests)[later]? ↔ alike former.1 asked.1)
  /-- A new key is given the size that the ledger has at this moment. -/
  fresh : ∀ {place : Nat} {asked : κ × γ}, requests[place]? = some asked →
    (∀ earlier ∈ requests.take place, ¬ alike earlier.1 asked.1) →
    (idsOf requests)[place]? = some (ofRequests (requests.take place)).size
  /-- The ids are the numbers below the size of the ledger, in the order in which they are
  given first. -/
  numbered : (idsOf requests).eraseDups = List.range (ofRequests requests).size
  /-- The id that a key has been given remains the id of all keys alike, whatever is requested
  later. -/
  kept : ∀ {place : Nat} {asked : κ × γ}, requests[place]? = some asked →
    ∃ id, (idsOf requests)[place]? = some id ∧
      ∀ more key, alike asked.1 key → (ofRequests (requests ++ more)).id? key = some id
  /-- Under each id stands a key, whatever is requested later, and the id of this key is this
  one. -/
  keyOfId : ∀ id < (ofRequests requests).size, ∃ key,
    (ofRequests requests).id? key = some id ∧
      ∀ more, (ofRequests (requests ++ more)).key? id = some key
  /-- A requested key has an id, under which a key alike stands. -/
  idOfKey : ∀ key, (∃ asked ∈ requests, alike asked.1 key) →
    ∃ id found, (ofRequests requests).id? key = some id ∧
      (ofRequests requests).key? id = some found ∧ alike found key
  /-- The consumers of a requested key are those of the requests for keys alike, one for each
  request, in the order of the requests. -/
  consumers : ∀ key, (∃ asked ∈ requests, alike asked.1 key) →
    (ofRequests requests).consumers? key =
      some ((requests.filter fun asked => alike asked.1 key).map (·.2))
  /-- A key that has not been requested has neither an id nor consumers. -/
  unknown : ∀ key, (∀ asked ∈ requests, ¬ alike asked.1 key) →
    (ofRequests requests).id? key = none ∧ (ofRequests requests).consumers? key = none
  /-- The rows stand in the order of their ids, which begin at zero. -/
  ordered : (ofRequests requests).rows.map (·.2.1) = List.range (ofRequests requests).size
  /-- No two rows have keys that are alike. -/
  once : (ofRequests requests).rows.Pairwise fun first second => ¬ alike first.1 second.1
  /-- Each requested key has a row. -/
  complete : ∀ asked ∈ requests, ∃ row ∈ (ofRequests requests).rows, alike row.1 asked.1
  /-- A row shows its key as it was requested first, with the id and the consumers of it. -/
  listed : ∀ row ∈ (ofRequests requests).rows,
    (requests.map (·.1)).find? (fun key => alike key row.1) = some row.1 ∧
      (ofRequests requests).id? row.1 = some row.2.1 ∧
      (ofRequests requests).consumers? row.1 = some row.2.2

omit [BEq κ] in
/-- A row is an entry at the place that its id names. -/
theorem mem_rows {ledger : Ledger κ γ} {row : κ × Nat × List γ} :
    row ∈ ledger.rows ↔ ledger.entries[row.2.1]? = some (row.1, row.2.2) := by
  obtain ⟨key, id, consumers⟩ := row
  simp [rows, rowsFrom, List.mem_zipIdx_iff_getElem?]

/-- The key of a row leads to its id and to its entry. -/
theorem Distinct.of_mem_rows [ReflBEq κ] {ledger : Ledger κ γ} (distinct : ledger.Distinct)
    {row : κ × Nat × List γ} (listed : row ∈ ledger.rows) :
    ledger.id? row.1 = some row.2.1 ∧
      ledger.entries.find? (·.1 == row.1) = some (row.1, row.2.2) := by
  have entry := mem_rows.mp listed
  have number : ledger.id? row.1 = some row.2.1 := distinct.id? (by simp [key?, entry])
  have place : ledger.entries.findIdx? (·.1 == row.1) = some row.2.1 := number
  exact ⟨number, by rw [List.find?_eq_bind_findIdx?_getElem?, place, Option.bind_some, entry]⟩

variable [EquivBEq κ]

/-- Each requested key has a row. -/
theorem exists_row {requests : List (κ × γ)} {asked : κ × γ} (member : asked ∈ requests) :
    ∃ row ∈ (ofRequests requests).rows, (row.1 == asked.1) = true := by
  have known : ((ofRequests requests).keys.find? (· == asked.1)).isSome = true := by
    rw [find?_keys, List.find?_isSome]
    exact ⟨asked.1, List.mem_map_of_mem member, BEq.rfl⟩
  obtain ⟨key, found⟩ := Option.isSome_iff_exists.mp known
  have inside := List.mem_of_find?_eq_some found
  have equal := List.find?_some found
  rw [← map_key_rows] at inside
  obtain ⟨row, listed, rfl⟩ := List.mem_map.mp inside
  exact ⟨row, listed, equal⟩

/-- A row shows its key as it was requested first, with its id and its consumers. -/
theorem row_shows {requests : List (κ × γ)} {row : κ × Nat × List γ}
    (listed : row ∈ (ofRequests requests).rows) :
    (requests.map (·.1)).find? (· == row.1) = some row.1 ∧
      (ofRequests requests).id? row.1 = some row.2.1 ∧
      (ofRequests requests).consumers? row.1 = some row.2.2 := by
  obtain ⟨number, entry⟩ := (distinct_ofRequests requests).of_mem_rows listed
  refine ⟨?_, number, by rw [consumers?, entry, Option.map_some]⟩
  rw [← find?_keys, keys, List.find?_map]
  exact congrArg (Option.map (·.1)) entry

/-- A ledger that compares keys as equal exactly when they are alike records alike keys as one
key. -/
theorem recorded_of_beq {alike : κ → κ → Prop} [DecidableRel alike]
    (same : ∀ key other, (key == other) = true ↔ alike key other) (requests : List (κ × γ)) :
    Recorded alike requests := by
  -- With the comparison in the place of `alike`, each part is a law of the ledger.
  obtain rfl : alike = fun key other => (key == other) = true := by
    funext key other
    exact propext (same key other).symm
  exact {
    answered := length_requestAll ..
    shared := idsOf_eq_iff
    fresh := fun here new => getElem?_idsOf_of_new here (by simpa using new)
    numbered := eraseDups_idsOf requests
    kept := exists_idsOf
    keyOfId := fun _ => exists_key?
    idOfKey := fun _ => exists_id?_of_requested
    consumers := by
      intro key requested
      have asked : requests.any (·.1 == key) = true := List.any_eq_true.mpr requested
      rw [consumers?_ofRequests, if_pos asked, requesters]
      simp only [Bool.decide_eq_true]
    unknown := by
      intro key never
      have absent := (id?_ofRequests_eq_none_iff requests key).mpr (by simpa using never)
      refine ⟨absent, ?_⟩
      rw [← Option.not_isSome_iff_eq_none, isSome_consumers?, absent]
      exact Bool.false_ne_true
    ordered := map_id_rows _
    once := by
      have apart := distinct_ofRequests requests
      rw [Distinct, ← map_key_rows, List.pairwise_map] at apart
      exact apart.imp fun unequal => by simp [unequal]
    complete := fun _ => exists_row
    listed := fun _ member => by simpa only [Bool.decide_eq_true] using row_shows member }

omit [BEq κ] [EquivBEq κ]

/-- Whatever nodes are requested from the beginning on, for whatever consumers, those with the
same content are recorded as one key, so that the name of a routine does not count. Two
containers, with the entries by their keys and with the keys by their ids, are changed by these
requests together: no request misses its entry, each is given the same id, and behind them the
containers show what the ledger shows. -/
theorem requests_recorded (requests : List (Node × γ)) :
    Recorded Node.Matches requests ∧
      ∃ directory, Directory.empty.requestAll requests = some (idsOf requests, directory) ∧
        directory.InStep (ofRequests requests) :=
  ⟨recorded_of_beq Node.beq_iff_matches requests, _,
    Directory.requestAll_ofLedger empty requests, Directory.ofLedger_inStep _⟩

/-- A routine under another name is no new key. -/
example :
    idsOf [(Node.routine "rex" [.write (.literal (.number 72)) 8], "mov"),
      (.routine "other name" [.write (.literal (.number 72)) 8], "add"),
      (.routine "rex" [.write (.literal (.number 73)) 8], "mov")] = [0, 0, 1] := by
  decide

/-- Lists of unordered writes are recorded by the content of their members. -/
theorem orderings_recorded (requests : List (List Node × γ)) :
    Recorded (List.Forall₂ Node.Matches) requests :=
  recorded_of_beq Node.beq_iff_matchesAll requests

end EncoderTables.Ledger
