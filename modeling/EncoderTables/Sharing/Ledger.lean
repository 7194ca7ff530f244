/-!
# Ledgers of requests

A ledger gives each distinct key a dense id, in the order of first request, and
remembers every consumer that asked for it, so that what is found out about the shared
thing later can be passed to all of them. Ids never change.
-/

namespace EncoderTables

/-- The distinct keys in the order of their ids, each with its consumers in the order
of their requests. -/
structure Ledger (κ γ : Type) where
  entries : List (κ × List γ)
  deriving Repr

namespace Ledger

variable {κ γ : Type}

/-- A ledger of which nothing has been requested. -/
def empty : Ledger κ γ := ⟨[]⟩

/-- The number of distinct keys. -/
def size (ledger : Ledger κ γ) : Nat := ledger.entries.length

/-- The key with an id. -/
def key? (ledger : Ledger κ γ) (id : Nat) : Option κ := ledger.entries[id]?.map (·.1)

variable [BEq κ]

/-- The id of a key that has been requested. -/
def id? (ledger : Ledger κ γ) (key : κ) : Option Nat :=
  ledger.entries.findIdx? (·.1 == key)

/-- A key is in the ledger once it has been requested. -/
def contains (ledger : Ledger κ γ) (key : κ) : Bool := (ledger.id? key).isSome

/-- The consumers that requested a key, one for each request. -/
def consumers? (ledger : Ledger κ γ) (key : κ) : Option (List γ) :=
  (ledger.entries.find? (·.1 == key)).map (·.2)

/-- Add a consumer to the entry of a key, which is new unless it is in the list. -/
def record (key : κ) (consumer : γ) : List (κ × List γ) → List (κ × List γ)
  | [] => [(key, [consumer])]
  | (first, consumers) :: rest =>
    if first == key then (first, consumers ++ [consumer]) :: rest
    else (first, consumers) :: record key consumer rest

/-- Request a key for a consumer: the id of the key, and the ledger behind the request. -/
def request (ledger : Ledger κ γ) (key : κ) (consumer : γ) : Nat × Ledger κ γ :=
  ((ledger.id? key).getD ledger.size, ⟨record key consumer ledger.entries⟩)

end Ledger

end EncoderTables
