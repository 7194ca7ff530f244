import EncoderTables.Domain.Registry
import Mathlib.Data.Finset.Card
import Mathlib.Data.List.Nodup

/-!
# Registration

Registering domains one after the other keeps each of them once, at the place where it was
registered first. Nothing that is registered later moves it, and every further registration of an
equal domain hands out the entry there.
-/

namespace EncoderTables

/-- The members of a list without its repetitions are distinct. -/
theorem nodup_eraseDups {α : Type} [DecidableEq α] (members : List α) :
    members.eraseDups.Nodup := by
  induction members using List.reverseRecOn with
  | nil => exact List.nodup_nil
  | append_singleton earlier member inductionHypothesis =>
    rw [List.eraseDups_append]
    by_cases known : member ∈ earlier
    · simpa [known, List.removeAll] using inductionHypothesis
    · simpa [known, List.removeAll, List.eraseDups_cons, List.nodup_append] using
        ⟨inductionHypothesis, fun other inside same => known (same ▸ inside)⟩

namespace Registry

/-- Register several domains one after the other. -/
def registerAll (registry : Registry) (domains : List Domain) : Registry :=
  domains.foldl register registry

/-- Domains after domains. -/
theorem registerAll_append (registry : Registry) (first second : List Domain) :
    registry.registerAll (first ++ second) = (registry.registerAll first).registerAll second :=
  List.foldl_append

/-- Domains that are registered from the beginning on are kept once each, in the order of
their first registration. -/
theorem domains_registerAll (domains : List Domain) :
    (empty.registerAll domains).domains = domains.eraseDups := by
  -- The registry grows at its end, so the domains are taken from the end as well.
  induction domains using List.reverseRecOn with
  | nil => rfl
  | append_singleton earlier domain inductionHypothesis =>
    have step : (empty.registerAll (earlier ++ [domain])).domains =
        if domain ∈ earlier then earlier.eraseDups else earlier.eraseDups ++ [domain] := by
      rw [registerAll_append]
      show ((empty.registerAll earlier).register domain).domains = _
      simp only [register, contains, inductionHypothesis, List.contains_iff_mem,
        List.mem_eraseDups]
      split
      · exact inductionHypothesis
      · rfl
    rw [step, List.eraseDups_append]
    by_cases known : domain ∈ earlier <;> simp [known, List.removeAll, List.eraseDups_cons]

/-- A sequence of registrations keeps what those before it have registered. -/
theorem domains_isPrefix (front back : List Domain) :
    (empty.registerAll front).domains <+: (empty.registerAll (front ++ back)).domains := by
  rw [domains_registerAll, domains_registerAll, List.eraseDups_append]
  exact List.prefix_append _ _

/-- As many domains are registered as there are distinct ones. -/
theorem length_registerAll (domains : List Domain) :
    (empty.registerAll domains).domains.length = domains.toFinset.card := by
  rw [domains_registerAll, ← List.toFinset_card_of_nodup (nodup_eraseDups domains)]
  congr 1
  ext domain
  simp

/-- The entry of a registered domain, which registering an equal one hands out: the domain and
the place where it is kept. -/
def lookup? (registry : Registry) (domain : Domain) : Option (Domain × Nat) :=
  registry.domains.zipIdx.find? fun entry => entry.1 == domain

/-- A domain is found behind those among which it is not. -/
theorem find?_zipIdx {front : List Domain} {domain : Domain} (new : domain ∉ front)
    (back : List Domain) (start : Nat) :
    ((front ++ domain :: back).zipIdx start).find? (fun entry => entry.1 == domain) =
      some (domain, start + front.length) := by
  induction front generalizing start with
  | nil => simp
  | cons first front inductionHypothesis =>
    rw [List.mem_cons, not_or] at new
    have differs : (first == domain) = false := beq_false_of_ne (Ne.symm new.1)
    rw [List.cons_append, List.zipIdx_cons, List.find?_cons, differs, inductionHypothesis new.2,
      List.length_cons]
    simp [Nat.add_comm, Nat.add_left_comm]

/-- What is handed out for a domain is the entry of its first registration, whatever is registered
behind it. -/
theorem lookup?_registerAll {front : List Domain} {domain : Domain} (new : domain ∉ front)
    (back : List Domain) :
    (empty.registerAll (front ++ domain :: back)).lookup? domain =
      some (domain, (empty.registerAll front).domains.length) := by
  have fresh : domain ∉ front.eraseDups := by simpa using new
  obtain ⟨behind, split⟩ : ∃ behind,
      (front ++ domain :: back).eraseDups = front.eraseDups ++ domain :: behind := by
    have kept : (domain :: back).removeAll front = domain :: back.removeAll front := by
      simp [List.removeAll, new]
    rw [List.eraseDups_append, kept, List.eraseDups_cons]
    exact ⟨_, rfl⟩
  rw [lookup?, domains_registerAll, split, find?_zipIdx fresh, domains_registerAll, Nat.zero_add]

end Registry

end EncoderTables
