import EncoderTables.Domain.Basic

/-!
# Domain registry

The domains that emitted tables refer to, each once, in the order of first use. A
domain once registered never moves.
-/

namespace EncoderTables

/-- The registered domains in the order of their registration. -/
structure Registry where
  domains : List Domain
  deriving DecidableEq, Repr

namespace Registry

/-- A registry without domains. -/
def empty : Registry := ⟨[]⟩

/-- A domain is registered when an equal one is. -/
def contains (registry : Registry) (domain : Domain) : Bool := registry.domains.contains domain

/-- Register a domain, unless an equal one is registered. -/
def register (registry : Registry) (domain : Domain) : Registry :=
  if registry.contains domain then registry else ⟨registry.domains ++ [domain]⟩

end Registry

end EncoderTables
