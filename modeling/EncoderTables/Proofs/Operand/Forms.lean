import EncoderTables.Operand.Basic
import EncoderTables.Proofs.Operand.Grammar
import Mathlib.Data.List.Nodup

/-!
# The languages of operand forms

The six rules for explicit names share their first letters, but not one name: its slash or its
first letters tell the only rule that a name can belong to. So it does not matter in which order
the rules are tried, and a name is found by them exactly when it is written in one of the forms.
-/

namespace EncoderTables.Operand

/-- Digits that may be missing: none of them, or a number. -/
inductive IsOptionalNumeral : List Char → Option Nat → Prop where
  | missing : IsOptionalNumeral [] none
  | given {digits : List Char} {value : Nat} (number : IsNumeral digits value) :
    IsOptionalNumeral digits (some value)

/-- The letters of index vectors with their widths. -/
def indexWidths : List (Char × Nat) := [('x', 128), ('y', 256), ('z', 512)]

/-- How explicit operands are written. A general purpose register may leave its width to that of
the memory, and the range behind a vector register does not count. -/
inductive Form.Written : Form → List Char → Prop where
  | immediate {digits : List Char} {width : Option Nat} (size : IsOptionalNumeral digits width) :
    Written (.immediate width) ('i' :: 'm' :: 'm' :: digits)
  | relative {digits : List Char} {width : Option Nat} (size : IsOptionalNumeral digits width) :
    Written (.relative width) ('r' :: 'e' :: 'l' :: digits)
  | vectorOrMemory (family : VectorName) {digits : List Char} {memory : Nat}
    (size : IsNumeral digits memory) :
    Written (.vectorOrMemory family memory) (family.spelling ++ '/' :: 'm' :: digits)
  | generalOrMemory {own digits : List Char} {register : Option Nat} {memory : Nat}
    (width : IsOptionalNumeral own register) (size : IsNumeral digits memory) :
    Written (.generalOrMemory register memory) ('r' :: (own ++ '/' :: 'm' :: digits))
  | sharedWidth {digits : List Char} {memory : Nat} (size : IsNumeral digits memory) :
    Written (.generalOrMemory none memory) ('r' :: 'm' :: digits)
  | vectorRegister (family : VectorName) : Written (.vectorRegister family) family.spelling
  | rangedRegister (family : VectorName) {range : BitRange} {text : List Char}
    (spelled : SpellsRange range text) :
    Written (.vectorRegister family) (family.spelling ++ text)
  | generalRegister {digits : List Char} {width : Nat} (size : IsNumeral digits width) :
    Written (.generalRegister width) ('r' :: digits)
  | memory {digits : List Char} {width : Option Nat} (size : IsOptionalNumeral digits width) :
    Written (.memory width) ('m' :: digits)
  | offset {digits : List Char} {width : Nat} (size : IsNumeral digits width) :
    Written (.offset width) ('m' :: 'o' :: 'f' :: 'f' :: 's' :: digits)
  | vectorIndexed {own digits : List Char} {count memory index : Nat} {letter : Char}
    (first : IsNumeral own count) (known : (letter, index) ∈ indexWidths)
    (size : IsNumeral digits memory) :
    Written (.vectorIndexed index memory) ('v' :: 'm' :: (own ++ letter :: digits))

/-- What is left behind a leader. -/
theorem after?_eq_some_iff {leader text rest : List Char} :
    after? leader text = some rest ↔ text = leader ++ rest := by
  fun_induction after? leader text with
  | case1 text => simp
  | case2 => simp
  | case3 leader c text inductionHypothesis => simp [inductionHypothesis]
  | case4 l leader c text differs => simp [Ne.symm differs]

/-- A number is read as it is written. -/
theorem number?_eq_some_iff {text : List Char} {value : Nat} :
    number? text = some value ↔ IsNumeral text value := by
  unfold number?
  constructor
  · intro read
    split at read
    · next checked =>
      rw [Bool.and_eq_true, Bool.not_eq_true', List.all_eq_true] at checked
      exact ⟨List.isEmpty_eq_false_iff.mp checked.1, checked.2, Option.some.inj read⟩
    · cases read
  · rintro ⟨filled, each, rfl⟩
    have checked : (!text.isEmpty && text.all Text.isDigit) = true := by
      rw [Bool.and_eq_true, Bool.not_eq_true', List.all_eq_true]
      exact ⟨List.isEmpty_eq_false_iff.mpr filled, each⟩
    rw [if_pos checked]

/-- A number that may be missing is read as it is written. -/
theorem optionalNumber?_eq_some_iff {text : List Char} {width : Option Nat} :
    optionalNumber? text = some width ↔ IsOptionalNumeral text width := by
  unfold optionalNumber?
  constructor
  · intro read
    split at read
    · next empty =>
      rw [List.isEmpty_iff.mp empty, ← Option.some.inj read]
      exact .missing
    · obtain ⟨value, number, rfl⟩ := Option.map_eq_some_iff.mp read
      exact .given (number?_eq_some_iff.mp number)
  · rintro (_ | number)
    · rfl
    · rw [if_neg (by simpa using number.filled), number?_eq_some_iff.mpr number]
      rfl

/-- The width of an index letter is that of the table. -/
theorem indexWidth?_eq_some_iff {letter : Char} {width : Nat} :
    indexWidth? letter = some width ↔ (letter, width) ∈ indexWidths := by
  unfold indexWidth?
  split <;> simp_all [indexWidths, eq_comm]

/-- A vector register family is found by its spelling. -/
theorem vectorName?_spelling (family : VectorName) (rest : List Char) :
    vectorName? (family.spelling ++ rest) = some (family, rest) := by
  cases family <;> rfl

/-- A name starts with the spelling of the family that is found in it. -/
theorem eq_of_vectorName? {name rest : List Char} {family : VectorName}
    (found : vectorName? name = some (family, rest)) : name = family.spelling ++ rest := by
  obtain ⟨other, -, tried⟩ := List.exists_of_findSome?_eq_some found
  obtain ⟨behind, follows, same⟩ := Option.map_eq_some_iff.mp tried
  cases same
  exact after?_eq_some_iff.mp follows

/-- The digits at the start of a text are a number, if there are any. -/
theorem isNumeral_takeWhile {text : List Char} (filled : text.takeWhile Text.isDigit ≠ []) :
    IsNumeral (text.takeWhile Text.isDigit) (Text.numeralValue (text.takeWhile Text.isDigit)) :=
  ⟨filled, fun _ => List.mem_takeWhile_imp, rfl⟩

/-- What a scan for a range in brackets finds is such a range. -/
theorem isBracketedRange_iff {text : List Char} :
    isBracketedRange text = true ↔ ∃ range, SpellsRange range text := by
  constructor
  · intro found
    unfold isBracketedRange at found
    split at found
    · next behind =>
      obtain ⟨low, found⟩ := Bool.and_eq_true_iff.mp found
      have front := List.takeWhile_append_dropWhile (p := Text.isDigit) (l := behind)
      split at found
      · next later lowEnd =>
        obtain ⟨high, highEnd⟩ := Bool.and_eq_true_iff.mp found
        have back := List.takeWhile_append_dropWhile (p := Text.isDigit) (l := later)
        rw [beq_iff_eq] at highEnd
        rw [highEnd] at back
        rw [lowEnd, ← back] at front
        exact ⟨⟨_, _⟩, _, _, isNumeral_takeWhile (by simpa using low),
          isNumeral_takeWhile (by simpa using high), congrArg ('[' :: ·) front.symm⟩
      · cases found
    · cases found
  · rintro ⟨range, low, high, first, last, rfl⟩
    obtain ⟨lowTaken, lowEnd⟩ := leadingDigits_append first.each (c := '.') (by decide)
      ('.' :: (high ++ [']']))
    obtain ⟨highTaken, highEnd⟩ := leadingDigits_append last.each (c := ']') (by decide) []
    simp [isBracketedRange, lowTaken, lowEnd, highTaken, highEnd, first.filled, last.filled]

/-- Behind a slash and a letter there is the width of memory. -/
theorem memoryWidth?_eq_some_iff {text : List Char} {memory : Nat} :
    (after? ['/', 'm'] text).bind number? = some memory ↔
      ∃ digits, IsNumeral digits memory ∧ text = '/' :: 'm' :: digits := by
  simp only [Option.bind_eq_some_iff, after?_eq_some_iff, number?_eq_some_iff]
  constructor
  · rintro ⟨digits, rfl, size⟩
    exact ⟨digits, size, rfl⟩
  · rintro ⟨digits, size, rfl⟩
    exact ⟨digits, rfl, size⟩

/-- The rules for explicit names, one for each family of forms. -/
inductive Rule where
  | immediate | registerOrMemory | register | memory | offset | vectorIndexed
  deriving DecidableEq, Repr

namespace Rule

/-- The rules in the order in which they are tried. -/
def all : List Rule := [immediate, registerOrMemory, register, memory, offset, vectorIndexed]

/-- The recognizer of a rule. -/
def recognizer : Rule → List Char → Option Form
  | immediate => immediateForm?
  | registerOrMemory => registerOrMemoryForm?
  | register => registerForm?
  | memory => memoryForm?
  | offset => offsetForm?
  | vectorIndexed => vectorIndexedForm?

/-- The only rule that a name can belong to, which its slash or its first letters tell. -/
def ofName (name : List Char) : Rule :=
  if '/' ∈ name then registerOrMemory
  else match name with
    | 'i' :: _ | 'r' :: 'e' :: _ => immediate
    | 'r' :: 'm' :: _ => registerOrMemory
    | 'm' :: 'o' :: _ => offset
    | 'm' :: 'm' :: _ => register
    | 'm' :: _ => memory
    | 'v' :: _ => vectorIndexed
    | _ => register

end Rule

/-- The rule that finds a form. -/
def Form.rule : Form → Rule
  | .immediate _ | .relative _ => .immediate
  | .vectorOrMemory .. | .generalOrMemory .. => .registerOrMemory
  | .vectorRegister _ | .generalRegister _ => .register
  | .memory _ => .memory
  | .offset _ => .offset
  | .vectorIndexed .. => .vectorIndexed

variable {name : List Char} {form : Form}

/-- An immediate or a distance is found as it is written. -/
theorem written_of_immediateForm? (found : immediateForm? name = some form) :
    form.rule = .immediate ∧ form.Written name := by
  unfold immediateForm? at found
  split at found
  · next rest start =>
    obtain ⟨width, size, rfl⟩ := Option.map_eq_some_iff.mp found
    rw [after?_eq_some_iff.mp start]
    exact ⟨rfl, .immediate (optionalNumber?_eq_some_iff.mp size)⟩
  · split at found
    · next rest start =>
      obtain ⟨width, size, rfl⟩ := Option.map_eq_some_iff.mp found
      rw [after?_eq_some_iff.mp start]
      exact ⟨rfl, .relative (optionalNumber?_eq_some_iff.mp size)⟩
    · cases found

/-- A register or memory is found as it is written. -/
theorem written_of_registerOrMemoryForm? (found : registerOrMemoryForm? name = some form) :
    form.rule = .registerOrMemory ∧ form.Written name := by
  unfold registerOrMemoryForm? at found
  split at found
  · next family rest start =>
    obtain ⟨memory, size, rfl⟩ := Option.map_eq_some_iff.mp found
    obtain ⟨digits, number, rfl⟩ := memoryWidth?_eq_some_iff.mp size
    rw [eq_of_vectorName? start]
    exact ⟨rfl, .vectorOrMemory family number⟩
  · split at found
    · next rest start =>
      obtain ⟨memory, size, rfl⟩ := Option.map_eq_some_iff.mp found
      exact ⟨rfl, .sharedWidth (number?_eq_some_iff.mp size)⟩
    · next rest _ _ =>
      simp only [Option.bind_eq_bind] at found
      obtain ⟨width, own, last⟩ := Option.bind_eq_some_iff.mp found
      obtain ⟨memory, size, same⟩ := Option.bind_eq_some_iff.mp last
      cases same
      obtain ⟨digits, number, behind⟩ := memoryWidth?_eq_some_iff.mp size
      rw [← List.takeWhile_append_dropWhile (p := Text.isDigit) (l := rest), behind]
      exact ⟨rfl, .generalOrMemory (optionalNumber?_eq_some_iff.mp own) number⟩
    · cases found

/-- A register is found as it is written. -/
theorem written_of_registerForm? (found : registerForm? name = some form) :
    form.rule = .register ∧ form.Written name := by
  unfold registerForm? at found
  split at found
  · next family rest start =>
    rw [eq_of_vectorName? start]
    split at found
    · next ends =>
      cases found
      rcases Bool.or_eq_true_iff.mp ends with none | range
      · rw [List.isEmpty_iff.mp none, List.append_nil]
        exact ⟨rfl, .vectorRegister family⟩
      · obtain ⟨range, spelled⟩ := isBracketedRange_iff.mp range
        exact ⟨rfl, .rangedRegister family spelled⟩
    · cases found
  · split at found
    · next rest start =>
      obtain ⟨width, size, rfl⟩ := Option.map_eq_some_iff.mp found
      exact ⟨rfl, .generalRegister (number?_eq_some_iff.mp size)⟩
    · cases found

/-- Memory is found as it is written. -/
theorem written_of_memoryForm? (found : memoryForm? name = some form) :
    form.rule = .memory ∧ form.Written name := by
  unfold memoryForm? at found
  split at found
  · next rest =>
    obtain ⟨width, size, rfl⟩ := Option.map_eq_some_iff.mp found
    exact ⟨rfl, .memory (optionalNumber?_eq_some_iff.mp size)⟩
  · cases found

/-- Memory at an offset is found as it is written. -/
theorem written_of_offsetForm? (found : offsetForm? name = some form) :
    form.rule = .offset ∧ form.Written name := by
  obtain ⟨width, read, rfl⟩ := Option.map_eq_some_iff.mp found
  obtain ⟨digits, start, size⟩ := Option.bind_eq_some_iff.mp read
  rw [after?_eq_some_iff.mp start]
  exact ⟨rfl, .offset (number?_eq_some_iff.mp size)⟩

/-- Memory addressed by a vector of indices is found as it is written. -/
theorem written_of_vectorIndexedForm? (found : vectorIndexedForm? name = some form) :
    form.rule = .vectorIndexed ∧ form.Written name := by
  unfold vectorIndexedForm? at found
  obtain ⟨rest, start, behind⟩ := Option.bind_eq_some_iff.mp found
  obtain ⟨count, first, last⟩ := Option.bind_eq_some_iff.mp behind
  rw [after?_eq_some_iff.mp start]
  split at last
  · next letter digits ends =>
    obtain ⟨index, known, read⟩ := Option.bind_eq_some_iff.mp last
    obtain ⟨memory, size, same⟩ := Option.bind_eq_some_iff.mp read
    cases same
    rw [← List.takeWhile_append_dropWhile (p := Text.isDigit) (l := rest), ends]
    exact ⟨rfl, .vectorIndexed (number?_eq_some_iff.mp first) (indexWidth?_eq_some_iff.mp known)
      (number?_eq_some_iff.mp size)⟩
  · cases last

/-- What is no digit is not among digits. -/
theorem not_mem_of_digits {digits : List Char} (each : ∀ c ∈ digits, Text.isDigit c = true)
    {c : Char} (other : Text.isDigit c = false) : c ∉ digits := by
  intro inside
  rw [each c inside] at other
  cases other

/-- Digits do not start with what is no digit. -/
theorem ne_cons_of_digits {digits : List Char} (each : ∀ c ∈ digits, Text.isDigit c = true)
    {c : Char} (other : Text.isDigit c = false) (rest : List Char) : digits ≠ c :: rest := by
  rintro rfl
  exact not_mem_of_digits each other List.mem_cons_self

/-- Digits that may be missing are digits. -/
theorem IsOptionalNumeral.each {digits : List Char} {width : Option Nat}
    (size : IsOptionalNumeral digits width) : ∀ c ∈ digits, Text.isDigit c = true := by
  cases size with
  | missing => exact List.forall_mem_nil _
  | given number => exact number.each

/-- The letters of index vectors are neither digits nor slashes. -/
theorem letter_of_indexWidths : ∀ entry ∈ indexWidths,
    Text.isDigit entry.1 = false ∧ entry.1 ≠ '/' := by
  decide

/-- No slash is in a range in brackets. -/
theorem SpellsRange.no_slash {range : BitRange} {text : List Char}
    (spelled : SpellsRange range text) : '/' ∉ text := by
  obtain ⟨low, high, first, last, rfl⟩ := spelled
  have slash : Text.isDigit '/' = false := by decide
  simp [not_mem_of_digits first.each slash, not_mem_of_digits last.each slash]

/-- The form of a written name is found by its rule. -/
theorem recognizer_of_written (written : form.Written name) :
    form.rule.recognizer name = some form := by
  cases written with
  | immediate size =>
    simp [Form.rule, Rule.recognizer, immediateForm?, after?, optionalNumber?_eq_some_iff.mpr size]
  | relative size =>
    simp [Form.rule, Rule.recognizer, immediateForm?, after?, optionalNumber?_eq_some_iff.mpr size]
  | vectorOrMemory family size =>
    simp [Form.rule, Rule.recognizer, registerOrMemoryForm?, vectorName?_spelling, after?,
      number?_eq_some_iff.mpr size]
  | @generalOrMemory own digits register memory width size =>
    obtain ⟨taken, behind⟩ := leadingDigits_append width.each (c := '/') (by decide) ('m' :: digits)
    have noFamily : vectorName? ('r' :: (own ++ '/' :: 'm' :: digits)) = none := rfl
    simp only [Form.rule, Rule.recognizer, registerOrMemoryForm?, noFamily]
    split
    · next rest same =>
      -- No digit is the letter that stands in front of a shared width.
      have letter := not_mem_of_digits width.each (c := 'm') (by decide)
      cases own <;> simp_all
    · next rest _ same =>
      obtain rfl := (List.cons.inj same).2
      simp [taken, behind, after?, optionalNumber?_eq_some_iff.mpr width,
        number?_eq_some_iff.mpr size]
    · next none => exact absurd rfl (none _)
  | sharedWidth size =>
    simp [Form.rule, Rule.recognizer, registerOrMemoryForm?, vectorName?, VectorName.all,
      VectorName.spelling, after?, number?_eq_some_iff.mpr size]
  | vectorRegister family => cases family <;> rfl
  | rangedRegister family spelled =>
    simp [Form.rule, Rule.recognizer, registerForm?, vectorName?_spelling,
      isBracketedRange_iff.mpr ⟨_, spelled⟩]
  | generalRegister size =>
    simp [Form.rule, Rule.recognizer, registerForm?, vectorName?, VectorName.all,
      VectorName.spelling, after?, number?_eq_some_iff.mpr size]
  | memory size =>
    simp [Form.rule, Rule.recognizer, memoryForm?, optionalNumber?_eq_some_iff.mpr size]
  | offset size =>
    simp [Form.rule, Rule.recognizer, offsetForm?, after?, number?_eq_some_iff.mpr size]
  | @vectorIndexed own digits count memory index letter first known size =>
    obtain ⟨taken, behind⟩ :=
      leadingDigits_append first.each (letter_of_indexWidths _ known).1 digits
    simp [Form.rule, Rule.recognizer, vectorIndexedForm?, after?, taken, behind,
      number?_eq_some_iff.mpr first, indexWidth?_eq_some_iff.mpr known,
      number?_eq_some_iff.mpr size]

/-- A rule finds the forms of its family as they are written, and no others. -/
theorem recognizer_eq_some_iff {rule : Rule} :
    rule.recognizer name = some form ↔ form.rule = rule ∧ form.Written name := by
  constructor
  · intro found
    cases rule with
    | immediate => exact written_of_immediateForm? found
    | registerOrMemory => exact written_of_registerOrMemoryForm? found
    | register => exact written_of_registerForm? found
    | memory => exact written_of_memoryForm? found
    | offset => exact written_of_offsetForm? found
    | vectorIndexed => exact written_of_vectorIndexedForm? found
  · rintro ⟨rfl, written⟩
    exact recognizer_of_written written

/-- The slash or the first letters of a written name tell its rule. -/
theorem Form.Written.rule_eq (written : form.Written name) : form.rule = Rule.ofName name := by
  have slash : Text.isDigit '/' = false := by decide
  cases written with
  | immediate size | relative size =>
    simp [Rule.ofName, Form.rule, not_mem_of_digits size.each slash]
  | vectorOrMemory family size => simp [Rule.ofName, Form.rule]
  | generalOrMemory width size => simp [Rule.ofName, Form.rule]
  | sharedWidth size => simp [Rule.ofName, Form.rule]
  | vectorRegister family => cases family <;> rfl
  | rangedRegister family spelled =>
    cases family <;> simp [Rule.ofName, Form.rule, VectorName.spelling, spelled.no_slash]
  | generalRegister size =>
    -- Behind its first letter no other one decides.
    have notDistance := ne_cons_of_digits size.each (c := 'e') (by decide)
    have notShared := ne_cons_of_digits size.each (c := 'm') (by decide)
    have noSlash := not_mem_of_digits size.each slash
    rw [Rule.ofName, if_neg (by simp [noSlash])] <;> simp [Form.rule, notDistance, notShared]
  | memory size =>
    have notOffset := ne_cons_of_digits size.each (c := 'o') (by decide)
    have notFamily := ne_cons_of_digits size.each (c := 'm') (by decide)
    have noSlash := not_mem_of_digits size.each slash
    rw [Rule.ofName, if_neg (by simp [noSlash])] <;> simp [Form.rule, notOffset, notFamily]
  | offset size => simp [Rule.ofName, Form.rule, not_mem_of_digits size.each slash]
  | vectorIndexed first known size =>
    simp [Rule.ofName, Form.rule, not_mem_of_digits first.each slash,
      not_mem_of_digits size.each slash, (letter_of_indexWidths _ known).2.symm]

/-- A name is written in one form only. -/
theorem Form.Written.unique {other : Form} (written : form.Written name)
    (again : other.Written name) : form = other := by
  have first := recognizer_of_written written
  have second := recognizer_of_written again
  rw [written.rule_eq] at first
  rw [again.rule_eq, first] at second
  exact Option.some.inj second

/-- At most one of the rules finds a form in a name. -/
theorem countP_recognizers (name : List Char) :
    recognizers.countP (fun recognizer => (recognizer name).isSome) ≤ 1 := by
  have only : ∀ rule ∈ Rule.all, (rule.recognizer name).isSome = true →
      (rule == Rule.ofName name) = true := by
    intro rule _ found
    obtain ⟨form, found⟩ := Option.isSome_iff_exists.mp found
    obtain ⟨rfl, written⟩ := recognizer_eq_some_iff.mp found
    exact beq_iff_eq.mpr written.rule_eq
  have distinct : Rule.all.Nodup := by decide
  calc recognizers.countP (fun recognizer => (recognizer name).isSome)
      = Rule.all.countP (fun rule => (rule.recognizer name).isSome) := rfl
    _ ≤ Rule.all.countP (· == Rule.ofName name) := List.countP_mono_left only
    _ ≤ 1 := List.nodup_iff_count_le_one.mp distinct _

/-- The rules find the form in which a name is written, in whatever order they are tried. -/
theorem findSome?_eq_some_iff {rules : List (List Char → Option Form)}
    (same : rules.Perm recognizers) :
    rules.findSome? (· name) = some form ↔ form.Written name := by
  have sound {form : Form} (found : rules.findSome? (· name) = some form) : form.Written name := by
    obtain ⟨recognizer, tried, found⟩ := List.exists_of_findSome?_eq_some found
    obtain ⟨rule, -, rfl⟩ : ∃ rule ∈ Rule.all, rule.recognizer = recognizer :=
      List.mem_map.mp (same.mem_iff.mp tried)
    exact (recognizer_eq_some_iff.mp found).2
  refine ⟨sound, fun written => ?_⟩
  cases found : rules.findSome? (· name) with
  | some other => rw [(sound found).unique written]
  | none =>
    have listed : form.rule.recognizer ∈ recognizers := by
      cases form.rule <;> simp [Rule.recognizer, recognizers]
    have missed := List.findSome?_eq_none_iff.mp found _ (same.mem_iff.mpr listed)
    rw [recognizer_of_written written] at missed
    cases missed

/-- The operand of a segment when the rules for explicit names are tried in some order. -/
def ofEntryBy (rules : List (List Char → Option Form)) (numbering : Numbering) (entry : Entry) :
    Except Cause (Operand × Numbering) :=
  if isImplicit entry.name then do
    return (⟨entry, ← implicitShape entry.name, none⟩, numbering)
  else
    match rules.findSome? (· entry.name.toList) with
    | none => .error (.unexpectedOperand entry.name)
    | some form => do
      let shape ← form.shape entry.name
      let (parameter, next) := form.parameter numbering
      return (⟨entry, shape, parameter⟩, next)

/-- Operands are made by the recognizers in their order. -/
theorem ofEntryBy_recognizers : ofEntryBy recognizers = ofEntry := rfl

/-- In whatever order the rules are tried, the operand is the same. -/
theorem ofEntryBy_perm {rules : List (List Char → Option Form)} (same : rules.Perm recognizers)
    (numbering : Numbering) (entry : Entry) :
    ofEntryBy rules numbering entry = ofEntry numbering entry := by
  have found : rules.findSome? (· entry.name.toList) =
      recognizers.findSome? (· entry.name.toList) := by
    ext form
    rw [findSome?_eq_some_iff same, findSome?_eq_some_iff (List.Perm.refl _)]
  rw [← ofEntryBy_recognizers, ofEntryBy, ofEntryBy, found]

/-- The width of the general purpose register of a form, if it has one: that of the memory when
none is written. -/
def Form.generalWidth? : Form → Option Nat
  | .generalOrMemory own accessed => some (own.getD accessed)
  | .generalRegister width => some width
  | _ => none

/-- A form whose general purpose register, if it has one, is of a width that exists. -/
def Form.HasWidth (form : Form) : Prop :=
  ∀ width, form.generalWidth? = some width → width ∈ [8, 16, 32, 64]

/-- A general purpose register is refused for its width, and for nothing else. -/
theorem Shape.withGeneral_cases (shape : Shape) (width : Nat) (name : String) :
    (width ∈ [8, 16, 32, 64] ∧ ∃ found, shape.withGeneral width name = .ok found) ∨
      width ∉ [8, 16, 32, 64] ∧
        shape.withGeneral width name = .error (.invalidRegisterSize width name) := by
  simp only [Shape.withGeneral, generalWidths, List.contains_iff_mem]
  by_cases known : width ∈ [8, 16, 32, 64]
  · exact Or.inl ⟨known, _, if_pos known⟩
  · exact Or.inr ⟨known, if_neg known⟩

/-- A form has a shape, or its general purpose register is refused for its width. -/
theorem Form.shape_cases (name : String) (form : Form) :
    (form.HasWidth ∧ ∃ shape, form.shape name = .ok shape) ∨
      ∃ width, form.generalWidth? = some width ∧ width ∉ [8, 16, 32, 64] ∧
        form.shape name = .error (.invalidRegisterSize width name) := by
  cases form with
  | generalOrMemory own accessed =>
    rcases Shape.withGeneral_cases { Shape.ofKind .rm with memorySize := some accessed }
      (own.getD accessed) name with ⟨known, made⟩ | ⟨unknown, refused⟩
    · exact Or.inl ⟨fun width same => Option.some.inj same ▸ known, made⟩
    · exact Or.inr ⟨_, rfl, unknown, refused⟩
  | generalRegister width =>
    rcases Shape.withGeneral_cases (Shape.ofKind .reg) width name with
      ⟨known, made⟩ | ⟨unknown, refused⟩
    · exact Or.inl ⟨fun width same => Option.some.inj same ▸ known, made⟩
    · exact Or.inr ⟨_, rfl, unknown, refused⟩
  | _ => exact Or.inl ⟨fun _ same => (Option.some_ne_none _ same.symm).elim, _, rfl⟩

/-- What becomes of an explicit name: it is in no form, or in a form that has a shape, or in one
that is refused for its width. -/
theorem ofEntry_cases {entry : Entry} (explicit : isImplicit entry.name = false)
    (numbering : Numbering) :
    ((∀ form : Form, ¬ form.Written entry.name.toList) ∧
      ofEntry numbering entry = .error (.unexpectedOperand entry.name)) ∨
    ∃ form : Form, form.Written entry.name.toList ∧
      ((form.HasWidth ∧ ∃ result, ofEntry numbering entry = .ok result) ∨
        ∃ width, form.generalWidth? = some width ∧ width ∉ [8, 16, 32, 64] ∧
          ofEntry numbering entry = .error (.invalidRegisterSize width entry.name)) := by
  have written (form : Form) :
      Form.ofName? entry.name = some form ↔ form.Written entry.name.toList :=
    findSome?_eq_some_iff (List.Perm.refl recognizers)
  simp only [ofEntry, explicit, Bool.false_eq_true, if_false]
  cases found : Form.ofName? entry.name with
  | none =>
    refine Or.inl ⟨fun form other => ?_, rfl⟩
    rw [(written form).mpr other] at found
    cases found
  | some form =>
    refine Or.inr ⟨form, (written form).mp found, ?_⟩
    rcases form.shape_cases entry.name with ⟨known, shape, made⟩ | ⟨width, own, missing, refused⟩
    · exact Or.inl ⟨known, _, by simp only [made]; rfl⟩
    · exact Or.inr ⟨width, own, missing, by simp only [refused]; rfl⟩

/-- Explicit names have operands when they are written in a form whose width exists. -/
theorem exists_ofEntry_iff {numbering : Numbering} {entry : Entry}
    (explicit : isImplicit entry.name = false) :
    (∃ result, ofEntry numbering entry = .ok result) ↔
      ∃ form : Form, form.Written entry.name.toList ∧ form.HasWidth := by
  constructor
  · rintro ⟨result, made⟩
    rcases ofEntry_cases explicit numbering with
      ⟨-, refused⟩ | ⟨form, written, ⟨known, -⟩ | ⟨_, -, -, refused⟩⟩
    · rw [made] at refused
      cases refused
    · exact ⟨form, written, known⟩
    · rw [made] at refused
      cases refused
  · rintro ⟨form, written, known⟩
    rcases ofEntry_cases explicit numbering with
      ⟨unwritten, -⟩ | ⟨other, again, ⟨-, made⟩ | ⟨width, own, missing, -⟩⟩
    · exact absurd written (unwritten form)
    · exact made
    · rw [again.unique written] at own
      exact absurd (known width own) missing

/-- Explicit names are refused when they are written in no form, and for the width of the form
that they are written in. -/
theorem ofEntry_error_iff {numbering : Numbering} {entry : Entry}
    (explicit : isImplicit entry.name = false) {cause : Cause} :
    ofEntry numbering entry = .error cause ↔
      ((∀ form : Form, ¬ form.Written entry.name.toList) ∧
          cause = .unexpectedOperand entry.name) ∨
        ∃ (form : Form) (width : Nat), form.Written entry.name.toList ∧
          form.generalWidth? = some width ∧ width ∉ [8, 16, 32, 64] ∧
            cause = .invalidRegisterSize width entry.name := by
  constructor
  · intro refused
    rcases ofEntry_cases explicit numbering with
      ⟨unwritten, other⟩ | ⟨form, written, ⟨-, result, made⟩ | ⟨width, own, missing, other⟩⟩
    · rw [other] at refused
      exact Or.inl ⟨unwritten, (Except.error.inj refused).symm⟩
    · rw [made] at refused
      cases refused
    · rw [other] at refused
      exact Or.inr ⟨form, width, written, own, missing, (Except.error.inj refused).symm⟩
  · rintro (⟨unwritten, rfl⟩ | ⟨form, width, written, own, missing, rfl⟩)
    · rcases ofEntry_cases explicit numbering with ⟨-, refused⟩ | ⟨form, written, -⟩
      · exact refused
      · exact absurd written (unwritten form)
    · rcases ofEntry_cases explicit numbering with
        ⟨unwritten, -⟩ | ⟨other, again, ⟨known, -⟩ | ⟨found, other, -, refused⟩⟩
      · exact absurd written (unwritten form)
      · rw [again.unique written] at known
        exact absurd (known width own) missing
      · rw [again.unique written, own] at other
        rw [refused, Option.some.inj other]

/-- An explicit name is found by at most one of the rules, so in whatever order they are tried, the
operand is the same. It has one exactly when it is written in one of the forms and the general
purpose register of the form, if it has one, is of a width that exists. Otherwise it is refused, as
unexpected or for the width. -/
theorem explicit_form_unique (numbering : Numbering) (entry : Entry)
    (explicit : isImplicit entry.name = false) :
    recognizers.countP (fun recognizer => (recognizer entry.name.toList).isSome) ≤ 1 ∧
      (∀ rules : List (List Char → Option Form), rules.Perm recognizers →
        ofEntryBy rules numbering entry = ofEntry numbering entry) ∧
      ((∃ result, ofEntry numbering entry = .ok result) ↔
        ∃ form : Form, form.Written entry.name.toList ∧ form.HasWidth) ∧
      ∀ cause, ofEntry numbering entry = .error cause ↔
        ((∀ form : Form, ¬ form.Written entry.name.toList) ∧
            cause = .unexpectedOperand entry.name) ∨
          ∃ (form : Form) (width : Nat), form.Written entry.name.toList ∧
            form.generalWidth? = some width ∧ width ∉ [8, 16, 32, 64] ∧
              cause = .invalidRegisterSize width entry.name := by
  exact ⟨countP_recognizers _, fun rules same => ofEntryBy_perm same numbering entry,
    exists_ofEntry_iff explicit, fun cause => ofEntry_error_iff explicit⟩

/-- Operands of explicit names: a register that is not as wide as the memory, a vector register
with a range, and a width that no general purpose register has. -/
def explicitEntries : Entry × Entry × Entry :=
  (⟨"r32/m64", [.read], [], none⟩, ⟨"mm[0..7]", [.written], [], none⟩, ⟨"rm24", [.read], [], none⟩)

/-- With the rules in reverse order the first is the same, the second is accepted and the third is
refused for its width. -/
theorem explicit_form_unique_reversed :
    ofEntryBy recognizers.reverse .start explicitEntries.1 = ofEntry .start explicitEntries.1 ∧
      (∃ result, ofEntry .start explicitEntries.2.1 = .ok result) ∧
      ofEntry .start explicitEntries.2.2 = .error (.invalidRegisterSize 24 "rm24") := by
  obtain ⟨-, anyOrder, -, -⟩ := explicit_form_unique .start explicitEntries.1 (by decide)
  obtain ⟨-, -, accepted, -⟩ := explicit_form_unique .start explicitEntries.2.1 (by decide)
  obtain ⟨-, -, -, refused⟩ := explicit_form_unique .start explicitEntries.2.2 (by decide)
  refine ⟨anyOrder _ (List.reverse_perm _), accepted.mpr ⟨.vectorRegister .mm, ?_, ?_⟩,
    (refused _).mpr (Or.inr ⟨.generalOrMemory none 24, 24, ?_, rfl, by decide, rfl⟩)⟩
  · have range : SpellsRange ⟨0, 7⟩ ['[', '0', '.', '.', '7', ']'] :=
      ⟨['0'], ['7'], number?_eq_some_iff.mp rfl, number?_eq_some_iff.mp rfl, rfl⟩
    exact .rangedRegister .mm range
  · exact fun width none => by cases none
  · exact .sharedWidth (number?_eq_some_iff.mp rfl)

end EncoderTables.Operand
