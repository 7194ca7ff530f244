import EncoderTables.Proofs.Sharing.Sequences

/-!
# Keys and entries apart

A ledger can be kept in two containers: the entries, which are looked up by their keys, each with
the id that has been written into it and the consumers that have been added to it; and beside them
the keys, which are looked up by their ids. A new key is entered into both, and every request
reads its id from the entry. Here the containers are shown to stay in step with each other: from
the beginning on they hold what the ledger holds, the ids that are written are the places of the
entries, and no request misses the entry that it needs.
-/

namespace EncoderTables

namespace Ledger

variable {κ γ : Type}

/-- Entries with the ids from `start` on. -/
def rowsFrom (start : Nat) (entries : List (κ × List γ)) : List (κ × Nat × List γ) :=
  (entries.zipIdx start).map fun (entry, id) => (entry.1, id, entry.2)

/-- The keys of a ledger, each with its id and its consumers. -/
def rows (ledger : Ledger κ γ) : List (κ × Nat × List γ) := rowsFrom 0 ledger.entries

/-- The first entry has the first id. -/
theorem rowsFrom_cons (start : Nat) (entry : κ × List γ) (rest : List (κ × List γ)) :
    rowsFrom start (entry :: rest) = (entry.1, start, entry.2) :: rowsFrom (start + 1) rest := rfl

/-- There are as many rows as entries. -/
@[simp]
theorem length_rowsFrom (start : Nat) (entries : List (κ × List γ)) :
    (rowsFrom start entries).length = entries.length := by
  simp [rowsFrom]

/-- Without the ids the rows are the entries. -/
theorem map_entry_rows (ledger : Ledger κ γ) :
    ledger.rows.map (fun row => (row.1, row.2.2)) = ledger.entries := by
  rw [rows, rowsFrom, List.map_map]
  exact List.zipIdx_map_fst 0 ledger.entries

/-- The keys of the rows are those of the ledger. -/
theorem map_key_rows (ledger : Ledger κ γ) : ledger.rows.map (·.1) = ledger.keys := by
  rw [keys, ← map_entry_rows, List.map_map]
  rfl

/-- The ids of the rows are the places of the entries. -/
theorem map_id_rows (ledger : Ledger κ γ) :
    ledger.rows.map (·.2.1) = List.range ledger.size := by
  rw [rows, rowsFrom, List.map_map, List.range_eq_range']
  exact List.zipIdx_map_snd 0 ledger.entries

end Ledger

/-- Entries by their keys, each with an id and the consumers, and keys by their ids. -/
structure Directory (κ γ : Type) where
  entries : List (κ × Nat × List γ)
  keys : List κ
  deriving Repr

namespace Directory

variable {κ γ : Type}

/-- A directory of which nothing has been requested. -/
def empty : Directory κ γ := ⟨[], []⟩

/-- The key with an id. -/
def key? (directory : Directory κ γ) (id : Nat) : Option κ := directory.keys[id]?

/-- The two containers of a ledger. -/
def ofLedger (ledger : Ledger κ γ) : Directory κ γ := ⟨ledger.rows, ledger.keys⟩

/-- The keys by their ids are those of the ledger. -/
theorem key?_ofLedger (ledger : Ledger κ γ) (id : Nat) :
    (ofLedger ledger).key? id = ledger.key? id := by
  simp [key?, ofLedger, Ledger.keys, Ledger.key?]

variable [BEq κ]

/-- What is found under a key: an id and the consumers. -/
def found? (directory : Directory κ γ) (key : κ) : Option (Nat × List γ) :=
  (directory.entries.find? (·.1 == key)).map (·.2)

/-- The id that is written into the entry of a key. -/
def id? (directory : Directory κ γ) (key : κ) : Option Nat := (directory.found? key).map (·.1)

/-- The consumers in the entry of a key. -/
def consumers? (directory : Directory κ γ) (key : κ) : Option (List γ) :=
  (directory.found? key).map (·.2)

/-- Enter a key into both containers, unless it is known. Its id is the number of entries before
it, and it has no consumers yet. -/
def enter (directory : Directory κ γ) (key : κ) : Directory κ γ :=
  if (directory.found? key).isSome then directory
  else
    { entries := directory.entries ++ [(key, directory.entries.length, [])]
      keys := directory.keys ++ [key] }

/-- Add a consumer to those in the entry of a key. -/
def subscribe (key : κ) (consumer : γ) : List (κ × Nat × List γ) → List (κ × Nat × List γ)
  | [] => []
  | (first, id, consumers) :: rest =>
    if first == key then (first, id, consumers ++ [consumer]) :: rest
    else (first, id, consumers) :: subscribe key consumer rest

/-- Request a key for a consumer: the id that is read from its entry, and the directory behind
the request. There is none if the key has no entry after it has been entered. -/
def request (directory : Directory κ γ) (key : κ) (consumer : γ) :
    Option (Nat × Directory κ γ) := do
  let entered := directory.enter key
  let id ← entered.id? key
  return (id, { entered with entries := subscribe key consumer entered.entries })

/-- Request several keys one after the other. -/
def requestAll (directory : Directory κ γ) :
    (requests : List (κ × γ)) → Option (List Nat × Directory κ γ)
  | [] => some ([], directory)
  | (key, consumer) :: rest => do
    let (id, next) ← directory.request key consumer
    let (ids, last) ← next.requestAll rest
    return (id :: ids, last)

/-- The id that is written into an entry is the place of the entry in the ledger. -/
theorem id?_ofLedger (ledger : Ledger κ γ) (key : κ) :
    (ofLedger ledger).id? key = ledger.id? key := by
  have numbered (start : Nat) (entries : List (κ × List γ)) :
      ((Ledger.rowsFrom start entries).find? (·.1 == key)).map (·.2.1) =
        (entries.findIdx? (·.1 == key)).map (start + ·) := by
    induction entries generalizing start with
    | nil => rfl
    | cons entry rest inductionHypothesis =>
      rw [Ledger.rowsFrom_cons, List.find?_cons, List.findIdx?_cons]
      cases here : entry.1 == key with
      | true => rfl
      | false =>
        have shift : (fun place => start + (place + 1)) = fun place => start + 1 + place := by
          funext place
          omega
        simpa [Function.comp_def, shift] using inductionHypothesis (start + 1)
  simpa [id?, found?, ofLedger, Ledger.rows, Ledger.id?, Function.comp_def]
    using numbered 0 ledger.entries

/-- The consumers in an entry are those in the ledger. -/
theorem consumers?_ofLedger (ledger : Ledger κ γ) (key : κ) :
    (ofLedger ledger).consumers? key = ledger.consumers? key := by
  rw [consumers?, found?, Ledger.consumers?, ← Ledger.map_entry_rows, List.find?_map,
    Option.map_map, Option.map_map]
  rfl

/-- Two containers that show what a ledger shows. -/
structure InStep (directory : Directory κ γ) (ledger : Ledger κ γ) : Prop where
  rows : directory.entries = ledger.rows
  ids : ∀ key, directory.id? key = ledger.id? key
  keys : ∀ id, directory.key? id = ledger.key? id
  consumers : ∀ key, directory.consumers? key = ledger.consumers? key

/-- The two containers of a ledger are in step with it. -/
theorem ofLedger_inStep (ledger : Ledger κ γ) : (ofLedger ledger).InStep ledger where
  rows := rfl
  ids := id?_ofLedger ledger
  keys := key?_ofLedger ledger
  consumers := consumers?_ofLedger ledger

/-- A key is entered if it has no id in the ledger, with the size of the ledger as its id. -/
theorem enter_ofLedger (ledger : Ledger κ γ) (key : κ) :
    (ofLedger ledger).enter key =
      if (ledger.id? key).isSome then ofLedger ledger
      else ⟨ledger.rows ++ [(key, ledger.size, [])], ledger.keys ++ [key]⟩ := by
  have known : ((ofLedger ledger).found? key).isSome = (ledger.id? key).isSome := by
    rw [← id?_ofLedger, id?, Option.isSome_map]
  have length : (ofLedger ledger).entries.length = ledger.size := by
    simp [ofLedger, Ledger.rows, Ledger.size]
  rw [enter, known, length]
  rfl

/-- A key is entered among the keys where the ledger adds it. -/
theorem keys_enter_ofLedger (ledger : Ledger κ γ) (key : κ) (consumer : γ) :
    ((ofLedger ledger).enter key).keys = (ledger.request key consumer).2.keys := by
  rw [enter_ofLedger, Ledger.isSome_id?, Ledger.keys_request_eq]
  split <;> rfl

variable [ReflBEq κ]

/-- A key that is entered has the id that the ledger gives to a request for it. -/
theorem id?_enter_ofLedger (ledger : Ledger κ γ) (key : κ) :
    ((ofLedger ledger).enter key).id? key = some ((ledger.id? key).getD ledger.size) := by
  rw [enter_ofLedger]
  cases known : ledger.id? key with
  | some id => exact (id?_ofLedger ledger key).trans known
  | none =>
    have absent : ledger.rows.find? (·.1 == key) = none := by
      have unknown : (ofLedger ledger).id? key = none := (id?_ofLedger ledger key).trans known
      simpa [id?, found?, ofLedger] using unknown
    simp [id?, found?, List.find?_append, absent]

/-- Behind a request the entries are those of the ledger behind it. -/
theorem subscribe_enter_ofLedger (ledger : Ledger κ γ) (key : κ) (consumer : γ) :
    subscribe key consumer ((ofLedger ledger).enter key).entries =
      (ledger.request key consumer).2.rows := by
  -- The ids of the rest begin one higher, so the induction is for entries from any id on.
  have subscribed (start : Nat) (entries : List (κ × List γ)) :
      subscribe key consumer (if entries.any (·.1 == key) then Ledger.rowsFrom start entries
        else Ledger.rowsFrom start entries ++ [(key, start + entries.length, [])]) =
      Ledger.rowsFrom start (Ledger.record key consumer entries) := by
    induction entries generalizing start with
    | nil => simp [Ledger.rowsFrom, Ledger.record, subscribe]
    | cons entry rest inductionHypothesis =>
      obtain ⟨first, consumers⟩ := entry
      rw [Ledger.rowsFrom_cons]
      cases here : first == key with
      | true => simp [subscribe, Ledger.record, here, Ledger.rowsFrom_cons]
      | false =>
        have length : start + 1 + rest.length = start + (rest.length + 1) := by omega
        have later := inductionHypothesis (start + 1)
        rw [length] at later
        rw [List.any_cons, here, Bool.false_or, List.length_cons, List.cons_append, ← apply_ite,
          subscribe, if_neg (by simp [here]), later, Ledger.record, if_neg (by simp [here]),
          Ledger.rowsFrom_cons]
  have whole := subscribed 0 ledger.entries
  rw [Nat.zero_add] at whole
  rw [enter_ofLedger, apply_ite Directory.entries, Ledger.id?, List.findIdx?_isSome]
  exact whole

/-- A request keeps the two containers in step with the ledger, and gives the same id. -/
theorem request_ofLedger (ledger : Ledger κ γ) (key : κ) (consumer : γ) :
    (ofLedger ledger).request key consumer =
      some ((ledger.request key consumer).1, ofLedger (ledger.request key consumer).2) := by
  rw [request, id?_enter_ofLedger, Option.bind_eq_bind, Option.bind_some,
    subscribe_enter_ofLedger, keys_enter_ofLedger ledger key consumer]
  rfl

/-- So do requests one after the other. -/
theorem requestAll_ofLedger (ledger : Ledger κ γ) (requests : List (κ × γ)) :
    (ofLedger ledger).requestAll requests =
      some ((ledger.requestAll requests).1, ofLedger (ledger.requestAll requests).2) := by
  induction requests generalizing ledger with
  | nil => rfl
  | cons request rest inductionHypothesis =>
    simp only [requestAll, request_ofLedger, inductionHypothesis, Option.bind_eq_bind,
      Option.bind_some, Ledger.requestAll, Option.pure_def]

end Directory

end EncoderTables
