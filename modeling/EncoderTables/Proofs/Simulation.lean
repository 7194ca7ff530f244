import Mathlib.Order.Defs.Unbundled
import EncoderTables.Proofs.Steps

/-!
# What steps keep, and steps side by side

A step keeps a relation when the state that it leaves is related to the one that it found,
whether it succeeds or is refused. Two steps go side by side when they lead from related
states to related states, succeed together with related values and are refused together for
the same failure. Both are found part by part: a sequence keeps what its parts keep, and two
sequences go side by side when their parts do.
-/

namespace EncoderTables.Steps

variable {ε σ τ α β γ δ : Type}

/-- A step that leaves a state related to the one that it found. -/
def Keeps (related : σ → σ → Prop) (step : EStateM ε σ α) : Prop :=
  ∀ before, match step before with
    | .ok _ after => related before after
    | .error _ after => related before after

namespace Keeps

variable {related : σ → σ → Prop}

/-- A step that succeeds. -/
theorem ok {step : EStateM ε σ α} (keeps : Keeps related step) {before after : σ} {value : α}
    (reached : step before = .ok value after) : related before after := by
  have kept := keeps before
  rwa [reached] at kept

/-- A step that is refused. -/
theorem error {step : EStateM ε σ α} (keeps : Keeps related step) {before after : σ}
    {failure : ε} (reached : step before = .error failure after) : related before after := by
  have kept := keeps before
  rwa [reached] at kept

/-- A change that is related. -/
theorem changed {change : σ → σ} (each : ∀ before, related before (change before)) :
    Keeps related (modify change : EStateM ε σ PUnit) := each

/-- A value alone. -/
theorem pure [Std.Refl related] (value : α) : Keeps related (Pure.pure value : EStateM ε σ α) :=
  fun before => Std.Refl.refl before

/-- A refusal. -/
theorem refused [Std.Refl related] (failure : ε) : Keeps related (throw failure : EStateM ε σ α) :=
  fun before => Std.Refl.refl before

/-- Nothing follows a refusal. -/
theorem refused_bind [Std.Refl related] (failure : ε) (next : α → EStateM ε σ β) :
    Keeps related ((throw failure : EStateM ε σ α) >>= next) :=
  fun before => Std.Refl.refl before

/-- Reading the state. -/
theorem read [Std.Refl related] : Keeps related (get : EStateM ε σ σ) :=
  fun before => Std.Refl.refl before

/-- One step after another. -/
theorem bind [IsTrans σ related] {step : EStateM ε σ α} {next : α → EStateM ε σ β}
    (first : Keeps related step) (second : ∀ value, Keeps related (next value)) :
    Keeps related (step >>= next) := by
  intro before
  cases finished : (step >>= next) before with
  | ok result after =>
    obtain ⟨value, middle, reached, last⟩ := (bind_ok_iff ..).mp finished
    exact IsTrans.trans _ _ _ (first.ok reached) ((second value).ok last)
  | error failure after =>
    rcases (bind_error_iff ..).mp finished with reached | ⟨value, middle, reached, last⟩
    · exact first.error reached
    · exact IsTrans.trans _ _ _ (first.ok reached) ((second value).error last)

end Keeps

/-- A property that holds behind a step if it has held before. -/
def Preserved (property : σ → Prop) (before after : σ) : Prop := property before → property after

instance (property : σ → Prop) : Std.Refl (Preserved property) := ⟨fun _ held => held⟩

instance (property : σ → Prop) : IsTrans σ (Preserved property) :=
  ⟨fun _ _ _ head tail held => tail (head held)⟩

/-- A step that reads the state may rely on the property that it keeps. -/
theorem Keeps.inspect {property : σ → Prop} {next : σ → EStateM ε σ α}
    (each : ∀ state, property state → Keeps (Preserved property) (next state)) :
    Keeps (Preserved property) (get >>= next) := by
  intro before
  show match next before before with
    | .ok .. => _
    | .error .. => _
  cases reached : next before before with
  | ok value after => exact fun held => (each before held).ok reached held
  | error failure after => exact fun held => (each before held).error reached held

/-- Two steps that go side by side: from related states they succeed together or are refused
together. -/
def Simulates (related : σ → τ → Prop) (same : α → β → Prop) (step : EStateM ε σ α)
    (other : EStateM ε τ β) : Prop :=
  ∀ before former, related before former → match step before, other former with
    | .ok value after, .ok found latter => same value found ∧ related after latter
    | .error failure after, .error cause latter => failure = cause ∧ related after latter
    | _, _ => False

namespace Simulates

variable {related : σ → τ → Prop} {same : α → β → Prop} {alike : γ → δ → Prop}

/-- A step that succeeds is accompanied. -/
theorem ok {step : EStateM ε σ α} {other : EStateM ε τ β}
    (simulates : Simulates related same step other) {before after : σ} {former : τ} {value : α}
    (start : related before former) (reached : step before = .ok value after) :
    ∃ found latter, other former = .ok found latter ∧ same value found ∧
      related after latter := by
  have beside := simulates before former start
  rw [reached] at beside
  cases finished : other former with
  | ok found latter =>
    rw [finished] at beside
    exact ⟨found, latter, rfl, beside⟩
  | error cause latter =>
    rw [finished] at beside
    exact beside.elim

/-- A step that is refused is accompanied. -/
theorem error {step : EStateM ε σ α} {other : EStateM ε τ β}
    (simulates : Simulates related same step other) {before after : σ} {former : τ}
    {failure : ε} (start : related before former) (reached : step before = .error failure after) :
    ∃ latter, other former = .error failure latter ∧ related after latter := by
  have beside := simulates before former start
  rw [reached] at beside
  cases finished : other former with
  | ok found latter =>
    rw [finished] at beside
    exact beside.elim
  | error cause latter =>
    rw [finished] at beside
    exact ⟨latter, by rw [beside.1], beside.2⟩

/-- Less may be known of the values. -/
theorem weaken {other : EStateM ε τ β} {step : EStateM ε σ α} {less : α → β → Prop}
    (simulates : Simulates related same step other)
    (each : ∀ value found, same value found → less value found) :
    Simulates related less step other := by
  intro before former start
  have beside := simulates before former start
  cases reached : step before <;> cases finished : other former <;>
    simp only [reached, finished] at beside ⊢
  · exact ⟨each _ _ beside.1, beside.2⟩
  · exact beside

/-- Steps that both go beside a third one go side by side. -/
theorem meet {υ : Type} {beside : τ → υ → Prop} {along : σ → υ → Prop} {step : EStateM ε σ α}
    {other : EStateM ε τ β} {third : EStateM ε υ γ} {equal : α → γ → Prop} {even : β → γ → Prop}
    (first : Simulates along equal step third) (second : Simulates beside even other third) :
    Simulates (fun before former => ∃ common, along before common ∧ beside former common)
      (fun value found => ∃ result, equal value result ∧ even found result) step other := by
  rintro before former ⟨common, one, two⟩
  cases reached : step before with
  | ok value after =>
    obtain ⟨result, last, finished, values, states⟩ := first.ok one reached
    cases followed : other former with
    | ok found latter =>
      obtain ⟨_, _, accompanied, founds, ends⟩ := second.ok two followed
      cases finished.symm.trans accompanied
      exact ⟨⟨result, values, founds⟩, last, states, ends⟩
    | error cause latter =>
      obtain ⟨_, accompanied, -⟩ := second.error two followed
      cases finished.symm.trans accompanied
  | error failure after =>
    obtain ⟨last, finished, states⟩ := first.error one reached
    cases followed : other former with
    | ok found latter =>
      obtain ⟨_, _, accompanied, -⟩ := second.ok two followed
      cases finished.symm.trans accompanied
    | error cause latter =>
      obtain ⟨_, accompanied, ends⟩ := second.error two followed
      cases finished.symm.trans accompanied
      exact ⟨rfl, last, states, ends⟩

/-- Values alone. -/
theorem pure {value : α} {found : β} (equal : same value found) :
    Simulates related same (Pure.pure value : EStateM ε σ α) (Pure.pure found) :=
  fun _ _ start => ⟨equal, start⟩

/-- Refusals for the same failure. -/
theorem refused (failure : ε) :
    Simulates related same (throw failure : EStateM ε σ α) (throw failure) :=
  fun _ _ start => ⟨rfl, start⟩

/-- Nothing follows refusals. -/
theorem refused_bind (failure : ε) (next : α → EStateM ε σ γ) (further : β → EStateM ε τ δ) :
    Simulates related alike ((throw failure : EStateM ε σ α) >>= next)
      ((throw failure : EStateM ε τ β) >>= further) :=
  fun _ _ start => ⟨rfl, start⟩

/-- One step after another, on both sides. -/
theorem bind {step : EStateM ε σ α} {other : EStateM ε τ β} {next : α → EStateM ε σ γ}
    {further : β → EStateM ε τ δ} (first : Simulates related same step other)
    (second : ∀ value found, same value found →
      Simulates related alike (next value) (further found)) :
    Simulates related alike (step >>= next) (other >>= further) := by
  intro before former start
  have beside := first before former start
  show match EStateM.bind step next before, EStateM.bind other further former with
    | .ok .., .ok .. => _
    | .error .., .error .. => _
    | _, _ => _
  unfold EStateM.bind
  cases reached : step before with
  | ok value middle =>
    cases finished : other former with
    | ok found reachedOther =>
      rw [reached, finished] at beside
      exact second value found beside.1 middle reachedOther beside.2
    | error cause latter =>
      rw [reached, finished] at beside
      exact beside.elim
  | error failure middle =>
    cases finished : other former with
    | ok found latter =>
      rw [reached, finished] at beside
      exact beside.elim
    | error cause latter =>
      rw [reached, finished] at beside
      exact beside

/-- Steps that find the same value are followed by steps for this value. -/
theorem follow {step : EStateM ε σ α} {other : EStateM ε τ α} {next : α → EStateM ε σ γ}
    {further : α → EStateM ε τ δ} (first : Simulates related Eq step other)
    (second : ∀ value, Simulates related alike (next value) (further value)) :
    Simulates related alike (step >>= next) (other >>= further) := by
  apply first.bind
  rintro value _ rfl
  exact second value

/-- Related changes. -/
theorem changed {change : σ → σ} {revision : τ → τ}
    (each : ∀ before former, related before former → related (change before) (revision former)) :
    Simulates related (fun _ _ => True) (modify change : EStateM ε σ PUnit) (modify revision) :=
  fun before former start => ⟨trivial, each before former start⟩

/-- Related changes that find related values. -/
theorem modifyGet {change : σ → α × σ} {revision : τ → β × τ}
    (each : ∀ before former, related before former →
      same (change before).1 (revision former).1 ∧
        related (change before).2 (revision former).2) :
    Simulates related same (MonadStateOf.modifyGet change : EStateM ε σ α)
      (MonadStateOf.modifyGet revision) := each

/-- Reading related states. -/
theorem read : Simulates related related (get : EStateM ε σ σ) (get : EStateM ε τ τ) :=
  fun _ _ start => ⟨start, start⟩

end Simulates

end EncoderTables.Steps
