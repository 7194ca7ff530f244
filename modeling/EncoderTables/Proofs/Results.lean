import EncoderTables.Failure

/-!
# Results that may be refused

A result found in parts is there exactly when each of its parts is, and is refused when one
of them is. These equations open such a result one part at a time.
-/

namespace EncoderTables.Results

variable {ε α β : Type}

/-- A result that depends on another is there when both are. -/
@[simp]
theorem bind_ok_iff (first : Except ε α) (next : α → Except ε β) (value : β) :
    (first >>= next) = .ok value ↔ ∃ found, first = .ok found ∧ next found = .ok value := by
  cases first with
  | ok found => simp [bind, Except.bind]
  | error failure => simp [bind, Except.bind]

/-- A value alone is a result. -/
@[simp]
theorem pure_ok_iff (found value : α) : (pure found : Except ε α) = .ok value ↔ found = value := by
  simp [pure, Except.pure]

/-- A change of a result leaves it there. -/
@[simp]
theorem map_ok_iff (found : Except ε α) (change : α → β) (value : β) :
    found.map change = .ok value ↔ ∃ former, found = .ok former ∧ change former = value := by
  cases found with
  | ok former => simp [Except.map]
  | error failure => simp [Except.map]

/-- A change of the failure leaves a result as it is. -/
@[simp]
theorem mapError_ok_iff {δ : Type} (found : Except ε α) (change : ε → δ) (value : α) :
    found.mapError change = .ok value ↔ found = .ok value := by
  cases found with
  | ok former =>
    show Except.ok former = .ok value ↔ _
    simp
  | error failure =>
    show Except.error (change failure) = .ok value ↔ _
    simp

/-- What is refused is no result. -/
@[simp]
theorem refuse_not_ok (cause : Cause) (value : α) : refuse cause = .ok value ↔ False := by
  simp [refuse]

/-- A result that depends on another is refused when the first is, or the second one. -/
@[simp]
theorem bind_error_iff (first : Except ε α) (next : α → Except ε β) (failure : ε) :
    (first >>= next) = .error failure ↔
      first = .error failure ∨ ∃ found, first = .ok found ∧ next found = .error failure := by
  cases first with
  | ok found => simp [bind, Except.bind]
  | error cause => simp [bind, Except.bind]

/-- A value alone is not refused. -/
@[simp]
theorem pure_not_error (found : α) (failure : ε) :
    (pure found : Except ε α) = .error failure ↔ False := by
  simp [pure, Except.pure]

/-- When a step has a result exactly for the values with a property, a list of values has
results exactly when each of them has the property. -/
theorem mapM_ok_iff {step : α → Except ε β} {property : α → Prop} {result : α → β}
    (each : ∀ value found, step value = .ok found ↔ property value ∧ result value = found)
    (values : List α) (found : List β) :
    values.mapM step = .ok found ↔
      (∀ value ∈ values, property value) ∧ values.map result = found := by
  induction values generalizing found with
  | nil => simp
  | cons value rest inductionHypothesis =>
    simp only [List.mapM_cons, bind_ok_iff, pure_ok_iff, each, inductionHypothesis,
      List.forall_mem_cons, List.map_cons]
    constructor
    · rintro ⟨_, ⟨own, rfl⟩, _, ⟨others, rfl⟩, rfl⟩
      exact ⟨⟨own, others⟩, rfl⟩
    · rintro ⟨⟨own, others⟩, rfl⟩
      exact ⟨_, ⟨own, rfl⟩, _, ⟨others, rfl⟩, rfl⟩

/-- When a list of values has results, so has each of them. -/
theorem mapM_ok {step : α → Except ε β} {values : List α} {found : List β}
    (made : values.mapM step = .ok found) :
    ∀ value ∈ values, ∃ result, step value = .ok result := by
  induction values generalizing found with
  | nil => simp
  | cons value rest inductionHypothesis =>
    simp only [List.mapM_cons, bind_ok_iff] at made
    obtain ⟨result, own, _, others, -⟩ := made
    exact List.forall_mem_cons.mpr ⟨⟨result, own⟩, inductionHypothesis others⟩

/-- A list of values is refused for one of them. -/
theorem mapM_error {step : α → Except ε β} {values : List α} {failure : ε}
    (refused : values.mapM step = .error failure) :
    ∃ value ∈ values, step value = .error failure := by
  induction values with
  | nil => simp at refused
  | cons value rest inductionHypothesis =>
    simp only [List.mapM_cons, bind_error_iff, pure_not_error, and_false, exists_false,
      or_false] at refused
    rcases refused with own | ⟨_, -, others⟩
    · exact ⟨value, List.mem_cons_self, own⟩
    · obtain ⟨other, member, found⟩ := inductionHypothesis others
      exact ⟨other, List.mem_cons_of_mem _ member, found⟩

/-- A result is there and passes a check. -/
def passes (check : α → Bool) : Except ε α → Bool
  | .ok value => check value
  | .error _ => false

/-- A result that passes a check is there. -/
theorem exists_ok {check : α → Bool} {found : Except ε α} (checked : passes check found = true) :
    ∃ value, found = .ok value ∧ check value = true := by
  cases found with
  | ok value => exact ⟨value, rfl, checked⟩
  | error failure => cases checked

end EncoderTables.Results
