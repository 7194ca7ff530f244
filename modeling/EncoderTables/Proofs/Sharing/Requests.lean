import EncoderTables.Sharing.Ledger

/-!
# Laws of requests

A request finds the entry of its key, or makes one behind all others, and adds its
consumer to it. Every other entry is left alone, so ids and keys never change and the
consumers of a key only become more.
-/

namespace EncoderTables.Ledger

variable {κ γ : Type}

/-- Each entry of one ledger is in the other in the same place, with the same key and all
of its consumers. -/
def Grown (before after : Ledger κ γ) : Prop :=
  ∀ (id : Nat) key consumers, before.entries[id]? = some (key, consumers) →
    ∃ more, after.entries[id]? = some (key, consumers ++ more)

/-- No request at all. -/
theorem Grown.refl (ledger : Ledger κ γ) : Grown ledger ledger :=
  fun _ _ _ found => ⟨[], by simpa using found⟩

/-- Requests after requests. -/
theorem Grown.trans {first second third : Ledger κ γ} (head : Grown first second)
    (tail : Grown second third) : Grown first third := by
  intro id key consumers found
  obtain ⟨more, reached⟩ := head id key consumers found
  obtain ⟨rest, final⟩ := tail id key _ reached
  exact ⟨more ++ rest, by rw [final, List.append_assoc]⟩

/-- A key keeps its id. -/
theorem Grown.key? {before after : Ledger κ γ} (grown : Grown before after) {id : Nat} {key : κ}
    (found : before.key? id = some key) : after.key? id = some key := by
  obtain ⟨⟨_, consumers⟩, entry, rfl⟩ := Option.map_eq_some_iff.mp found
  obtain ⟨more, reached⟩ := grown id _ consumers entry
  simp [Ledger.key?, reached]

/-- The consumers of an id. -/
def consumersOf (ledger : Ledger κ γ) (id : Nat) : List γ :=
  (ledger.entries[id]?.map (·.2)).getD []

/-- The consumers of a key only become more. -/
theorem Grown.consumersOf {before after : Ledger κ γ} (grown : Grown before after) (id : Nat) :
    before.consumersOf id ⊆ after.consumersOf id := by
  unfold Ledger.consumersOf
  cases found : before.entries[id]? with
  | none => simp
  | some entry =>
    obtain ⟨more, reached⟩ := grown id entry.1 entry.2 found
    simp [reached]

variable [BEq κ]

/-- What is in each place once a consumer has been recorded: what has been there, with the
consumer behind the others if the place is the one of the key, or the new key in the first
free place. -/
theorem getElem?_record (key : κ) (consumer : γ) (entries : List (κ × List γ)) (id : Nat) :
    (record key consumer entries)[id]? =
      match entries.findIdx? (·.1 == key) with
      | some place =>
        if id = place then entries[id]?.map fun entry => (entry.1, entry.2 ++ [consumer])
        else entries[id]?
      | none => if id = entries.length then some (key, [consumer]) else entries[id]? := by
  induction entries generalizing id with
  | nil => cases id <;> simp [record]
  | cons first rest inductionHypothesis =>
    obtain ⟨firstKey, consumers⟩ := first
    unfold record
    by_cases here : firstKey == key
    · cases id <;> simp [here, List.findIdx?_cons]
    · rw [if_neg (by simpa using here)]
      cases id with
      | zero =>
        cases later : rest.findIdx? (·.1 == key) <;> simp [here, later, List.findIdx?_cons]
      | succ id =>
        rw [List.getElem?_cons_succ, inductionHypothesis]
        cases later : rest.findIdx? (·.1 == key) <;> simp [here, later, List.findIdx?_cons]

/-- The keys of a ledger in the order of their ids. -/
def keys (ledger : Ledger κ γ) : List κ := ledger.entries.map (·.1)

omit [BEq κ] in
/-- A key with an id is in the ledger. -/
theorem mem_keys {ledger : Ledger κ γ} {id : Nat} {key : κ} (found : ledger.key? id = some key) :
    key ∈ ledger.keys := by
  obtain ⟨entry, listed, rfl⟩ := Option.map_eq_some_iff.mp found
  exact List.mem_map_of_mem (List.mem_of_getElem? listed)

/-- A request adds its key behind all others, unless it is there already. -/
theorem keys_request_eq (ledger : Ledger κ γ) (key : κ) (consumer : γ) :
    (ledger.request key consumer).2.keys =
      if ledger.keys.any (· == key) then ledger.keys else ledger.keys ++ [key] := by
  have recorded (entries : List (κ × List γ)) : (record key consumer entries).map (·.1) =
      if (entries.map (·.1)).any (· == key) then entries.map (·.1)
      else entries.map (·.1) ++ [key] := by
    induction entries with
    | nil => rfl
    | cons entry rest inductionHypothesis =>
      obtain ⟨first, consumers⟩ := entry
      by_cases here : first == key
      · simp [record, here]
      · rw [record, if_neg here, List.map_cons, inductionHypothesis, List.map_cons, List.any_cons,
          Bool.eq_false_iff.mpr here, Bool.false_or]
        split <;> rfl
  exact recorded ledger.entries

/-- A request leaves the keys, or adds its own. -/
theorem keys_request (ledger : Ledger κ γ) (key : κ) (consumer : γ) :
    (ledger.request key consumer).2.keys = ledger.keys ∨
      (ledger.request key consumer).2.keys = ledger.keys ++ [key] := by
  rw [keys_request_eq]
  split
  · exact .inl rfl
  · exact .inr rfl

/-- A request changes at most the consumers of one entry, which become more by one. -/
theorem request_grown (ledger : Ledger κ γ) (key : κ) (consumer : γ) :
    Grown ledger (ledger.request key consumer).2 := by
  intro id first consumers found
  simp only [request, getElem?_record]
  have inside : id ≠ ledger.entries.length := by
    have := (List.getElem?_eq_some_iff.mp found).1
    omega
  split
  · split
    · exact ⟨[consumer], by simp [found]⟩
    · exact ⟨[], by simp [found]⟩
  · exact ⟨[], by simp [inside, found]⟩

/-- A key that has been found keeps the id under which it is found. -/
theorem Grown.id? {before after : Ledger κ γ} (grown : Grown before after) {key : κ} {id : Nat}
    (found : before.id? key = some id) : after.id? key = some id := by
  have same (place : Nat) (inside : place < before.entries.length) :
      ∃ listed : place < after.entries.length,
        after.entries[place].1 = before.entries[place].1 := by
    obtain ⟨more, entry⟩ := grown place _ _ (List.getElem?_eq_getElem inside)
    obtain ⟨listed, equal⟩ := List.getElem?_eq_some_iff.mp entry
    exact ⟨listed, by rw [equal]; rfl⟩
  obtain ⟨inside, equal, first⟩ := List.findIdx?_eq_some_iff_getElem.mp found
  obtain ⟨listed, key⟩ := same id inside
  refine List.findIdx?_eq_some_iff_getElem.mpr ⟨listed, by rwa [key], fun place earlier => ?_⟩
  obtain ⟨there, former⟩ := same place (Nat.lt_trans earlier inside)
  rw [former]
  exact first place earlier

/-- Behind a request its key is found under the id that the request has given. -/
theorem id?_request [ReflBEq κ] (ledger : Ledger κ γ) (key : κ) (consumer : γ) :
    (ledger.request key consumer).2.id? key = some (ledger.request key consumer).1 := by
  have recorded (entries : List (κ × List γ)) :
      (record key consumer entries).findIdx? (·.1 == key) =
        some ((entries.findIdx? (·.1 == key)).getD entries.length) := by
    induction entries with
    | nil => simp [record]
    | cons entry rest inductionHypothesis =>
      obtain ⟨first, consumers⟩ := entry
      by_cases here : first == key
      · simp [record, here, List.findIdx?_cons]
      · rw [record, if_neg here, List.findIdx?_cons, List.findIdx?_cons, if_neg here,
          if_neg here, inductionHypothesis]
        cases rest.findIdx? (·.1 == key) <;> rfl
  exact recorded ledger.entries

/-- A key has an id if an equal one is among the keys. -/
theorem isSome_id? (ledger : Ledger κ γ) (key : κ) :
    (ledger.id? key).isSome = ledger.keys.any (· == key) := by
  rw [id?, List.findIdx?_isSome, keys, List.any_map]
  rfl

/-- Equal keys have one id. -/
theorem id?_congr [PartialEquivBEq κ] (ledger : Ledger κ γ) {key other : κ}
    (equal : (key == other) = true) : ledger.id? key = ledger.id? other := by
  simp only [id?, BEq.congr_right equal]

/-- Under the id of a key stands a key that equals it. -/
theorem key?_of_id? {ledger : Ledger κ γ} {id : Nat} {key : κ} (found : ledger.id? key = some id) :
    ∃ first, ledger.key? id = some first ∧ (first == key) = true := by
  obtain ⟨inside, equal, -⟩ := List.findIdx?_eq_some_iff_getElem.mp found
  exact ⟨_, by simp [key?, List.getElem?_eq_getElem inside], equal⟩

/-- A key that equals one of the ledger has an id, under which an equal key stands. -/
theorem exists_id? {ledger : Ledger κ γ} {key target : κ} (known : key ∈ ledger.keys)
    (equal : (key == target) = true) :
    ∃ id found, ledger.id? target = some id ∧ ledger.keys[id]? = some found ∧
      (found == target) = true := by
  have asked : (ledger.id? target).isSome = true := by
    rw [isSome_id?]
    exact List.any_eq_true.mpr ⟨key, known, equal⟩
  obtain ⟨id, number⟩ := Option.isSome_iff_exists.mp asked
  obtain ⟨found, there, same⟩ := key?_of_id? number
  exact ⟨id, found, number, by rwa [keys, List.getElem?_map], same⟩

/-- A consumer that has requested a key is listed with an equal key, under the id that the
request has given. -/
theorem request_listed [ReflBEq κ] (ledger : Ledger κ γ) (key : κ) (consumer : γ) :
    ∃ found consumers,
      (ledger.request key consumer).2.entries[(ledger.request key consumer).1]? =
        some (found, consumers ++ [consumer]) ∧ (found == key) = true := by
  simp only [request, id?, size, getElem?_record]
  cases located : ledger.entries.findIdx? (·.1 == key) with
  | none => exact ⟨key, [], by simp, BEq.rfl⟩
  | some place =>
    obtain ⟨inside, equal, -⟩ := List.findIdx?_eq_some_iff_getElem.mp located
    refine ⟨ledger.entries[place].1, ledger.entries[place].2, ?_, equal⟩
    simp [List.getElem?_eq_getElem inside]

/-- Whatever is in a ledger behind a request has been in it before, up to the new consumer
of the requested key, or it is the requested key itself. -/
theorem request_entry [ReflBEq κ] {ledger : Ledger κ γ} {key found : κ} {consumer : γ}
    {consumers : List γ} {id : Nat}
    (entry : (ledger.request key consumer).2.entries[id]? = some (found, consumers)) :
    (∃ former, ledger.entries[id]? = some (found, former) ∧
      (consumers = former ∨
        consumers = former ++ [consumer] ∧ (ledger.request key consumer).1 = id ∧
          (found == key) = true)) ∨
    (id = ledger.size ∧ found = key ∧ consumers = [consumer] ∧
      (ledger.request key consumer).1 = id ∧ ledger.id? key = none) := by
  simp only [request, getElem?_record] at entry
  simp only [request, id?, size]
  split at entry
  · next place located =>
    left
    split at entry
    · next here =>
      subst here
      obtain ⟨⟨_, former⟩, known, same⟩ := Option.map_eq_some_iff.mp entry
      simp only [Prod.mk.injEq] at same
      obtain ⟨rfl, rfl⟩ := same
      refine ⟨former, known, .inr ⟨rfl, by simp [located], ?_⟩⟩
      obtain ⟨inside, equal, -⟩ := List.findIdx?_eq_some_iff_getElem.mp located
      rw [List.getElem?_eq_getElem inside, Option.some.injEq] at known
      simpa [known] using equal
    · exact ⟨consumers, entry, .inl rfl⟩
  · next absent =>
    split at entry
    · next last =>
      simp only [Option.some.injEq, Prod.mk.injEq] at entry
      exact .inr ⟨last, entry.1.symm, entry.2.symm, by simp [absent, last], absent⟩
    · exact .inl ⟨consumers, entry, .inl rfl⟩

/-- Whoever is a consumer behind a request has been one before, or is the new one of the
requested id. -/
theorem mem_consumersOf_request [ReflBEq κ] {ledger : Ledger κ γ} {key : κ} {consumer member : γ}
    {id : Nat} (listed : member ∈ (ledger.request key consumer).2.consumersOf id) :
    member ∈ ledger.consumersOf id ∨
      member = consumer ∧ id = (ledger.request key consumer).1 := by
  cases found : (ledger.request key consumer).2.entries[id]? with
  | none => simp [consumersOf, found] at listed
  | some entry =>
    simp only [consumersOf, found, Option.map_some, Option.getD_some] at listed ⊢
    rcases request_entry found with ⟨former, known, same | ⟨more, here, -⟩⟩ | ⟨-, -, only, here, -⟩
    · exact .inl (by simpa [known, ← same] using listed)
    · rw [more, List.mem_append, List.mem_singleton] at listed
      exact listed.imp (by simp [known]) fun new => ⟨new, here.symm⟩
    · rw [only, List.mem_singleton] at listed
      exact .inr ⟨listed, here.symm⟩

omit [BEq κ] in
/-- There are as many keys as ids. -/
@[simp]
theorem length_keys (ledger : Ledger κ γ) : ledger.keys.length = ledger.size := by
  simp [size, keys]

/-- A key has consumers if it has an id. -/
theorem isSome_consumers? (ledger : Ledger κ γ) (key : κ) :
    (ledger.consumers? key).isSome = (ledger.id? key).isSome := by
  rw [consumers?, Option.isSome_map, id?, List.findIdx?_isSome, Bool.eq_iff_iff,
    List.find?_isSome, List.any_eq_true]

/-- A request for a new key makes the ledger greater by one, any other leaves its size. -/
theorem size_request (ledger : Ledger κ γ) (key : κ) (consumer : γ) :
    (ledger.request key consumer).2.size =
      if (ledger.id? key).isSome then ledger.size else ledger.size + 1 := by
  rw [← length_keys, keys_request_eq, isSome_id?]
  split <;> simp

/-- A request adds its consumer to those of every key that equals the requested one, and of no
other key. -/
theorem consumers?_request [EquivBEq κ] (ledger : Ledger κ γ) (key other : κ) (consumer : γ) :
    (ledger.request key consumer).2.consumers? other =
      if key == other then some ((ledger.consumers? other).getD [] ++ [consumer])
      else ledger.consumers? other := by
  have recorded (entries : List (κ × List γ)) :
      ((record key consumer entries).find? (·.1 == other)).map (·.2) =
        if key == other then
          some (((entries.find? (·.1 == other)).map (·.2)).getD [] ++ [consumer])
        else (entries.find? (·.1 == other)).map (·.2) := by
    induction entries with
    | nil => cases alike : key == other <;> simp [record, alike]
    | cons entry rest inductionHypothesis =>
      obtain ⟨first, consumers⟩ := entry
      -- The consumer goes to the first entry that equals `key`. Only if `other` equals it as well
      -- is this the entry that `other` leads to.
      cases here : first == key with
      | true =>
        have both : (first == other) = (key == other) := BEq.congr_left here
        cases alike : key == other <;> simp [record, here, both, alike]
      | false =>
        cases there : first == other with
        | true =>
          have apart : (key == other) = false := by
            rw [← BEq.congr_right there, BEq.comm, here]
          simp [record, here, there, apart]
        | false => simpa [record, here, there] using inductionHypothesis
  exact recorded ledger.entries

/-- No two keys of a ledger are equal. -/
def Distinct (ledger : Ledger κ γ) : Prop :=
  ledger.keys.Pairwise fun first second => (first == second) = false

/-- A request adds no key that equals one in the ledger. -/
theorem Distinct.request {ledger : Ledger κ γ} (distinct : ledger.Distinct) (key : κ)
    (consumer : γ) : (ledger.request key consumer).2.Distinct := by
  unfold Distinct
  rw [keys_request_eq]
  split
  · exact distinct
  · next new =>
    refine List.pairwise_append.mpr ⟨distinct, List.pairwise_singleton .., ?_⟩
    simpa using new

/-- A key that stands under an id is found there, since no key before it equals it. -/
theorem Distinct.id? [ReflBEq κ] {ledger : Ledger κ γ} (distinct : ledger.Distinct) {id : Nat}
    {key : κ} (found : ledger.key? id = some key) : ledger.id? key = some id := by
  obtain ⟨⟨_, consumers⟩, entry, rfl⟩ := Option.map_eq_some_iff.mp found
  obtain ⟨inside, here⟩ := List.getElem?_eq_some_iff.mp entry
  refine List.findIdx?_eq_some_iff_getElem.mpr ⟨inside, by simp [here], fun place earlier => ?_⟩
  have listed : id < ledger.keys.length := by simpa [size] using inside
  have apart := List.pairwise_iff_getElem.mp distinct place id
    (Nat.lt_trans earlier listed) listed earlier
  simpa [keys, here] using apart

end EncoderTables.Ledger
