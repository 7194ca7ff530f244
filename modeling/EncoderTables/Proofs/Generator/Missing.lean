import Mathlib.Data.List.Nodup
import EncoderTables.Generator.Emission

/-!
# What is missing from a list

A merge adds to a list what is missing from it. What is missing depends on the members
that are known and on nothing else about them; it has no repetitions, and it shrinks when
more is known. An emitter absorbs names and domains in this way, and absorbing twice is
absorbing both lists at once.
-/

namespace EncoderTables.Generator

/-- The missing names are those that are not known. -/
theorem mem_missingNames (known names : List String) (name : String) :
    name ∈ missingNames known names ↔ name ∈ names ∧ name ∉ known := by
  induction names generalizing known with
  | nil => simp [missingNames]
  | cons first rest inductionHypothesis =>
    unfold missingNames
    split
    · next here =>
      have member : first ∈ known := by simpa using here
      rw [inductionHypothesis]
      grind
    · next absent =>
      have fresh : first ∉ known := by simpa using absent
      rw [List.mem_cons, inductionHypothesis]
      grind

/-- Whoever knows what was known, and is told what was missing, knows all that has been
learned. -/
theorem subset_of_told {known given learned others : List String} (kept : known ⊆ others)
    (told : missingNames known given ⊆ others)
    (source : ∀ name ∈ learned, name ∈ known ∨ name ∈ given) : learned ⊆ others := by
  intro name member
  by_cases old : name ∈ known
  · exact kept old
  · have asked := (source name member).resolve_left old
    exact told ((mem_missingNames ..).mpr ⟨asked, old⟩)

/-- No name is missing twice. -/
theorem missingNames_nodup (known names : List String) : (missingNames known names).Nodup := by
  induction names generalizing known with
  | nil => exact List.nodup_nil
  | cons first rest inductionHypothesis =>
    unfold missingNames
    split
    · exact inductionHypothesis known
    · refine List.nodup_cons.mpr ⟨?_, inductionHypothesis _⟩
      simp [mem_missingNames]

/-- What is missing of two lists is missing of the first, or of the second once the first
is known. -/
theorem missingNames_append (known first second : List String) :
    missingNames known (first ++ second) =
      missingNames known first ++ missingNames (known ++ missingNames known first) second := by
  induction first generalizing known with
  | nil => simp [missingNames]
  | cons name rest inductionHypothesis =>
    simp only [List.cons_append, missingNames]
    split
    · exact inductionHypothesis known
    · rw [inductionHypothesis]
      simp

/-- Nothing is missing of what is known. -/
theorem missingNames_eq_nil_iff (known names : List String) :
    missingNames known names = [] ↔ names ⊆ known := by
  simp only [List.eq_nil_iff_forall_not_mem, mem_missingNames, not_and, not_not]
  exact Iff.rfl

/-- The missing names are what is left of a list without what is known, each once. -/
theorem missingNames_eq_eraseDups (known names : List String) :
    missingNames known names = (names.filter fun name => !known.contains name).eraseDups := by
  induction names generalizing known with
  | nil => rfl
  | cons first rest inductionHypothesis =>
    cases here : known.contains first with
    | true => simp only [missingNames, List.filter_cons, here, if_true, inductionHypothesis,
        Bool.not_true, Bool.false_eq_true, if_false]
    | false =>
      simp only [missingNames, List.filter_cons, here, Bool.false_eq_true, if_false,
        inductionHypothesis, Bool.not_false, if_true, List.eraseDups_cons, List.filter_filter]
      congr 3
      funext name
      rw [List.contains_append, Bool.not_or, Bool.and_comm, List.contains_cons,
        List.contains_nil, Bool.or_false]

/-- Adding what is missing adds nothing twice. -/
theorem append_missingNames_nodup {known : List String} (unique : known.Nodup)
    (names : List String) : (known ++ missingNames known names).Nodup := by
  refine List.nodup_append'.mpr ⟨unique, missingNames_nodup known names, ?_⟩
  intro name member missing
  exact ((mem_missingNames known names name).mp missing).2 member

/-- The more is known and the less is asked for, the less is missing. -/
theorem missingNames_length_le {known larger names fewer : List String} (grown : known ⊆ larger)
    (asked : fewer ⊆ names) :
    (missingNames larger fewer).length ≤ (missingNames known names).length := by
  apply (missingNames_nodup larger fewer).length_le_of_subset
  intro name missing
  obtain ⟨member, absent⟩ := (mem_missingNames larger fewer name).mp missing
  exact (mem_missingNames known names name).mpr ⟨asked member, fun inside => absent (grown inside)⟩

/-- No more is missing than is asked for. -/
theorem missingNames_length_le_length (known names : List String) :
    (missingNames known names).length ≤ names.length := by
  induction names generalizing known with
  | nil => simp [missingNames]
  | cons first rest inductionHypothesis =>
    unfold missingNames
    split
    · exact Nat.le_trans (inductionHypothesis known) (by simp)
    · simpa using inductionHypothesis _

/-- What a key has in a list of entries: the value of the first entry with the key. -/
theorem lookup_cons_ite {κ α : Type} [BEq κ] [LawfulBEq κ] [DecidableEq κ] (key first : κ)
    (value : α) (rest : List (κ × α)) :
    ((first, value) :: rest).lookup key =
      if key = first then some value else rest.lookup key := by
  by_cases here : key = first
  · simp [here]
  · have different : (key == first) = false := by simpa using here
    simp [List.lookup_cons, different, here]

/-- The names that have an entry. -/
def keys (entries : List (String × Domain)) : List String := entries.map (·.1)

/-- Entries of two lists. -/
@[simp]
theorem keys_append (first second : List (String × Domain)) :
    keys (first ++ second) = keys first ++ keys second := List.map_append ..

/-- The missing entries are those of the missing names. -/
theorem keys_missingEntries (known : List String) (entries : List (String × Domain)) :
    keys (missingEntries known entries) = missingNames known (keys entries) := by
  induction entries generalizing known with
  | nil => rfl
  | cons entry rest inductionHypothesis =>
    simp only [keys, missingEntries, List.map_cons, missingNames] at *
    split <;> simp [inductionHypothesis]

/-- Entries are missing when their names are. -/
theorem missingEntries_eq_nil_iff (known : List String) (entries : List (String × Domain)) :
    missingEntries known entries = [] ↔ missingNames known (keys entries) = [] := by
  rw [← keys_missingEntries, keys, List.map_eq_nil_iff]

/-- What is missing of two lists of entries is missing of the first, or of the second once
the first is known. -/
theorem missingEntries_append (known : List String) (first second : List (String × Domain)) :
    missingEntries known (first ++ second) =
      missingEntries known first ++
        missingEntries (known ++ missingNames known (keys first)) second := by
  induction first generalizing known with
  | nil => simp [missingEntries, keys, missingNames]
  | cons entry rest inductionHypothesis =>
    simp only [List.cons_append, missingEntries, keys, List.map_cons, missingNames]
    split
    · exact inductionHypothesis known
    · rw [inductionHypothesis]
      simp [keys]

/-- Missing entries are entries. -/
theorem missingEntries_subset (known : List String) (entries : List (String × Domain)) :
    missingEntries known entries ⊆ entries := by
  induction entries generalizing known with
  | nil => simp [missingEntries]
  | cons entry rest inductionHypothesis =>
    unfold missingEntries
    split
    · exact List.subset_cons_of_subset _ (inductionHypothesis known)
    · exact List.cons_subset_cons _ (inductionHypothesis _)

namespace Emitter

/-- Take over the names and the entries that an emitter does not have. -/
def absorb (emitter : Emitter) (names : List String) (entries : List (String × Domain)) :
    Emitter :=
  { emitter with
    parameters := emitter.parameters ++ missingNames emitter.parameters names
    domains := emitter.domains ++ missingEntries (keys emitter.domains) entries }

/-- Nothing to take over. -/
@[simp]
theorem absorb_nil (emitter : Emitter) : emitter.absorb [] [] = emitter := by
  simp [absorb, missingNames, missingEntries]

/-- Taking over twice is taking over both. -/
theorem absorb_absorb (emitter : Emitter) (names others : List String)
    (entries more : List (String × Domain)) :
    (emitter.absorb names entries).absorb others more =
      emitter.absorb (names ++ others) (entries ++ more) := by
  simp [absorb, missingNames_append, missingEntries_append, keys_missingEntries]

/-- The parameters of an emitter that has taken over names. -/
theorem mem_absorb_parameters (emitter : Emitter) (names : List String)
    (entries : List (String × Domain)) (name : String) :
    name ∈ (emitter.absorb names entries).parameters ↔
      name ∈ emitter.parameters ∨ name ∈ names := by
  simp only [absorb, List.mem_append, mem_missingNames]
  tauto

/-- The imposed names of an emitter that has taken over entries. -/
theorem mem_absorb_keys (emitter : Emitter) (names : List String)
    (entries : List (String × Domain)) (name : String) :
    name ∈ keys (emitter.absorb names entries).domains ↔
      name ∈ keys emitter.domains ∨ name ∈ keys entries := by
  simp only [absorb, keys_append, List.mem_append, keys_missingEntries, mem_missingNames]
  tauto

end Emitter

end EncoderTables.Generator
