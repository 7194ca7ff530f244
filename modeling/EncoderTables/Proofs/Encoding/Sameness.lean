import EncoderTables.Encoding.Node

/-!
# Sameness of nodes

Nodes that are the same have the same constructor and the same parts, up to the names of
routines and to sizes that count as the same number. The induction over two nodes that
are the same is stated once; whatever it proves holds of a shared function as well as of
every routine that shares it. Sameness is an equivalence, so what has been requested is found
again, and under one number only.
-/

namespace EncoderTables

/-- A value is the same as itself. -/
theorem Scalar.same_refl (value : Scalar) : value.same value = true := by
  cases value <;> simp [Scalar.same, Scalar.ratio?, Scalar.whole?]

/-- Sameness of values goes both ways. -/
theorem Scalar.same_symm {left right : Scalar} (equal : left.same right = true) :
    right.same left = true := by
  unfold Scalar.same at *
  split at equal <;> simp_all

/-- A number can be multiplied before it is shifted. -/
theorem Scalar.shifted_mul (places : Nat) (value : Int) :
    shifted places (10 * value) = 10 * shifted places value := by
  induction places with
  | zero => rfl
  | succ places inductionHypothesis => rw [shifted, inductionHypothesis, shifted]

/-- It does not matter which shift comes first. -/
theorem Scalar.shifted_comm (places others : Nat) (value : Int) :
    shifted places (shifted others value) = shifted others (shifted places value) := by
  induction places with
  | zero => rfl
  | succ places inductionHypothesis =>
    rw [shifted, inductionHypothesis, shifted, shifted_mul]

/-- Different numbers stay different when they are shifted. -/
theorem Scalar.shifted_injective (places : Nat) : Function.Injective (shifted places) := by
  intro first second same
  induction places with
  | zero => exact same
  | succ places inductionHypothesis =>
    simp only [shifted] at same
    apply inductionHypothesis
    omega

/-- Numbers with decimal places are equal when both are equal to a third one. -/
theorem Scalar.shifted_trans {first second third : Int} {places others rest : Nat}
    (head : shifted others first = shifted places second)
    (tail : shifted rest second = shifted others third) :
    shifted rest first = shifted places third := by
  apply shifted_injective others
  calc shifted others (shifted rest first)
      = shifted rest (shifted others first) := shifted_comm ..
    _ = shifted rest (shifted places second) := by rw [head]
    _ = shifted places (shifted rest second) := shifted_comm ..
    _ = shifted places (shifted others third) := by rw [tail]
    _ = shifted others (shifted places third) := shifted_comm ..

/-- Values that are the same as one value are the same. -/
theorem Scalar.same_trans {first second third : Scalar} (head : first.same second = true)
    (tail : second.same third = true) : first.same third = true := by
  unfold Scalar.same at *
  cases one : first.ratio? <;> cases two : second.ratio? <;> cases three : third.ratio? <;>
    simp_all
  exact Scalar.shifted_trans head tail

namespace Node

/-- Induction over two nodes that are the same: every part of one is the same as the part
of the other in its place. -/
theorem same_induction (motive : Node → Node → Prop) (motives : List Node → List Node → Prop)
    (bare : ∀ a b, a.same b = true → motive (.bare a) (.bare b))
    (group : ∀ as bs, motives as bs → motive (.group as) (.group bs))
    (literal : ∀ a, motive (.literal a) (.literal a))
    (literalList : ∀ as bs, motives as bs → motive (.literalList as) (.literalList bs))
    (param : ∀ name, motive (.param name) (.param name))
    (isSet : ∀ name, motive (.isSet name) (.isSet name))
    (unary : ∀ symbol a b, motive a b → motive (.unary symbol a) (.unary symbol b))
    (binary : ∀ symbol a b c d, motive a b → motive c d →
      motive (.binary symbol a c) (.binary symbol b d))
    (write : ∀ size a b, motive a b → motive (.write a size) (.write b size))
    (packed : ∀ as ms bs ns, motives as bs → ms.map Scalar.whole? = ns.map Scalar.whole? →
      motive (.packed as ms) (.packed bs ns))
    (branch : ∀ a b cs ds es fs, motive a b → motives cs ds → motives es fs →
      motive (.branch a cs es) (.branch b ds fs))
    (abort : ∀ message, motive (.abort message) (.abort message))
    (routine : ∀ name other as bs, motives as bs →
      motive (.routine name as) (.routine other bs))
    (call : ∀ a b, motive a b → motive (.call a) (.call b))
    (unordered : ∀ order as bs, motives as bs →
      motive (.unordered as order) (.unordered bs order))
    (nil : motives [] [])
    (cons : ∀ a b as bs, motive a b → motives as bs → motives (a :: as) (b :: bs)) :
    (∀ a b, same a b = true → motive a b) ∧ (∀ as bs, sameAll as bs = true → motives as bs) := by
  apply same.mutual_induct (fun a b => same a b = true → motive a b)
    (fun as bs => sameAll as bs = true → motives as bs)
  case case1 => exact bare
  case case16 =>
    intro a b
    intros
    simp_all [same]
  case case19 =>
    intro as bs
    intros
    simp_all [sameAll]
  all_goals
    intros
    simp only [same, sameAll, Bool.and_eq_true, beq_iff_eq] at *
    grind

mutual

/-- A node is the same as itself. -/
theorem same_refl : (node : Node) → same node node = true
  | .bare value => value.same_refl
  | .group items => sameAll_refl items
  | .literal _ => by simp [same]
  | .literalList items => sameAll_refl items
  | .param _ => by simp [same]
  | .isSet _ => by simp [same]
  | .unary _ inner => by simp [same, same_refl inner]
  | .binary _ left right => by simp [same, same_refl left, same_refl right]
  | .write value _ => by simp [same, same_refl value]
  | .packed values _ => by simp [same, sameAll_refl values]
  | .branch condition taken otherwise => by
    simp [same, same_refl condition, sameAll_refl taken, sameAll_refl otherwise]
  | .abort _ => by simp [same]
  | .routine _ members => sameAll_refl members
  | .call target => same_refl target
  | .unordered writes _ => by simp [same, sameAll_refl writes]

/-- Nodes are the same as themselves. -/
theorem sameAll_refl : (nodes : List Node) → sameAll nodes nodes = true
  | [] => rfl
  | node :: rest => by simp [sameAll, same_refl node, sameAll_refl rest]

end

instance : ReflBEq Node := ⟨same_refl _⟩

/-- Lists are looked up by the sameness of their members. -/
theorem beq_eq_sameAll (left right : List Node) : (left == right) = sameAll left right := by
  induction left generalizing right with
  | nil => cases right <;> rfl
  | cons node rest inductionHypothesis =>
    cases right with
    | nil => rfl
    | cons other others =>
      rw [List.cons_beq_cons, inductionHypothesis]
      rfl

/-- Sameness goes both ways. -/
theorem same_symm :
    (∀ left right, same left right = true → same right left = true) ∧
    (∀ left right, sameAll left right = true → sameAll right left = true) := by
  apply same_induction
  case bare => exact fun _ _ => Scalar.same_symm
  all_goals
    intros
    simp_all [same, sameAll]

/-- Nodes that are the same as one node are the same. -/
theorem same_trans :
    (∀ first second, same first second = true → ∀ third, same second third = true →
      same first third = true) ∧
    (∀ first second, sameAll first second = true → ∀ third, sameAll second third = true →
      sameAll first third = true) := by
  apply same_induction
  case bare =>
    intro a b head third tail
    cases third with
    | bare c => exact Scalar.same_trans head tail
    | _ => cases tail
  case nil => exact fun third tail => tail
  all_goals
    intros
    rename_i third tail
    -- Only a node of the same kind is left as the third one.
    cases third <;> first
      | cases tail
      | simp_all [same, sameAll]

instance : EquivBEq Node where
  symm := same_symm.1 _ _
  trans head tail := same_trans.1 _ _ head _ tail

instance : EquivBEq (List Node) where
  symm equal := by
    rw [beq_eq_sameAll] at equal ⊢
    exact same_symm.2 _ _ equal
  trans head tail := by
    rw [beq_eq_sameAll] at head tail ⊢
    exact same_trans.2 _ _ head _ tail

end Node

end EncoderTables
