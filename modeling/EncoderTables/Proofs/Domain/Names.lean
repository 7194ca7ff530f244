import EncoderTables.Domain.Basic
import Mathlib.Data.List.Nodup

/-!
# Names of domains

The constant of a domain is known by its name alone, so different domains must have
different names. The letter behind the common start of all names tells the kinds apart.
Bounds and members are written without a separator between their digits and letters, so the
separators between them are found again, and with them each bound and each member.
-/

namespace EncoderTables

/-- A number is known by its digits. -/
theorem digits_injective : Function.Injective (Nat.toDigits 10) := by
  intro first second same
  have value := congrArg (Nat.ofDigitChars 10 · 0) same
  simpa only [Nat.ofDigitChars_ten_toDigits] using value

/-- The characters of a number: a minus sign before those of a number below zero. -/
theorem toList_repr_int (value : Int) :
    value.repr.toList =
      if value < 0 then '-' :: Nat.toDigits 10 value.natAbs else Nat.toDigits 10 value.natAbs := by
  rw [Int.repr_eq_if]
  by_cases negative : value < 0
  · have magnitude : (-value).toNat = value.natAbs := by omega
    simp [negative, Int.not_le.mpr negative, magnitude]
  · have magnitude : value.toNat = value.natAbs := by omega
    simp [negative, Int.not_lt.mp negative, magnitude]

/-- The characters of a bound: the letter of a minus sign before those of a bound below
zero. -/
theorem Domain.toList_boundText (bound : Int) :
    (boundText bound).toList =
      if bound < 0 then 'm' :: Nat.toDigits 10 bound.natAbs else Nat.toDigits 10 bound.natAbs := by
  unfold boundText
  by_cases negative : bound < 0
  · simp [negative]
  · simp [negative, toList_repr_int]

/-- No sign is a digit. -/
theorem not_mem_digits {c : Char} (noDigit : c.isDigit = false) (value : Nat) :
    c ∉ Nat.toDigits 10 value := by
  intro member
  simp [Nat.isDigit_of_mem_toDigits (by decide) (by decide) member] at noDigit

/-- Digits behind a sign for numbers below zero tell the number. -/
theorem eq_of_signed {sign : Char} (noDigit : sign.isDigit = false) {first second : Int}
    (same : (if first < 0 then sign :: Nat.toDigits 10 first.natAbs
        else Nat.toDigits 10 first.natAbs) =
      if second < 0 then sign :: Nat.toDigits 10 second.natAbs
        else Nat.toDigits 10 second.natAbs) : first = second := by
  by_cases low : first < 0 <;> by_cases other : second < 0 <;>
    simp only [low, other, if_true, if_false] at same
  · have magnitude := digits_injective (List.cons.inj same).2
    omega
  · exact absurd (same ▸ List.mem_cons_self) (not_mem_digits noDigit second.natAbs)
  · exact absurd (same ▸ List.mem_cons_self) (not_mem_digits noDigit first.natAbs)
  · have magnitude := digits_injective same
    omega

/-- A text that can stand between separators: it is not empty and holds none. -/
def IsPart (text : String) : Prop := text ≠ "" ∧ '_' ∉ text.toList

/-- Parts between separators are found again. -/
theorem eq_of_intercalate {parts others : List String} (one : ∀ part ∈ parts, IsPart part)
    (two : ∀ part ∈ others, IsPart part)
    (same : "_".intercalate parts = "_".intercalate others) : parts = others := by
  have found := congrArg (fun text => (text.split '_').toList.map String.Slice.copy) same
  have split (texts : List String) (each : ∀ text ∈ texts, IsPart text) :
      (("_".intercalate texts).split '_').toList.map String.Slice.copy =
        if texts = [] then [""] else texts :=
    @String.toList_split_intercalate '_' texts fun text member => (each text member).2
  simp only [split parts one, split others two] at found
  split at found <;> split at found
  · simp_all
  · exact absurd rfl (two "" (found ▸ List.mem_singleton_self "")).1
  · exact absurd rfl (one "" (found ▸ List.mem_singleton_self "")).1
  · exact found

/-- The digits of a number are a part, with or without a letter before them. -/
theorem isPart_of_toList {text : String} {letters : List Char} {value : Nat}
    (written : text.toList = letters ++ Nat.toDigits 10 value) (plain : '_' ∉ letters) :
    IsPart text := by
  constructor
  · rintro rfl
    simp [Nat.toDigits_ne_nil] at written
  · rw [written, List.mem_append]
    rintro (early | late)
    · exact plain early
    · exact not_mem_digits (by decide) value late

namespace Member

/-- The names of registers are parts that start with a letter. -/
theorem registerName_part (register : Arch.Register) :
    IsPart (Arch.registerName register) ∧
      ∃ first ∈ (Arch.registerName register).toList.head?, first.isUpper = true := by
  have checked : ∀ name ∈ Arch.registerNames, name.toList.contains '_' = false ∧
      name.toList.head?.any Char.isUpper = true := by
    decide
  obtain ⟨plain, capital⟩ := checked (Arch.registerName register) (List.get_mem ..)
  obtain ⟨first, head, upper⟩ := (Option.any_eq_true ..).mp capital
  refine ⟨⟨?_, by simpa using plain⟩, first, head, upper⟩
  intro empty
  simp [empty] at head

/-- Registers have different names. -/
theorem registerName_injective : Function.Injective Arch.registerName := by
  have distinct : Arch.registerNames.Nodup := by decide
  intro first second same
  have positions := List.nodup_iff_injective_get.mp distinct same
  exact Fin.ext (congrArg Fin.val positions)

/-- The text of a member is a part. -/
theorem text_part (member : Member) : IsPart member.text := by
  cases member with
  | number value =>
    by_cases negative : value < 0
    · exact @isPart_of_toList _ ['-'] value.natAbs
        (by simp [Member.text, toList_repr_int, negative]) (by decide)
    · exact @isPart_of_toList _ [] value.natAbs
        (by simp [Member.text, toList_repr_int, negative]) (by decide)
  | register id => exact (registerName_part id).1

/-- The text of a number does not start with an upper-case letter. -/
theorem number_ne_register (value : Int) (id : Arch.Register) :
    (number value).text ≠ (register id).text := by
  intro same
  obtain ⟨-, first, head, upper⟩ := registerName_part id
  have letters : value.repr.toList = (Arch.registerName id).toList :=
    congrArg String.toList same
  rw [← letters, toList_repr_int] at head
  split at head
  · simp only [List.head?_cons, Option.mem_def, Option.some.injEq] at head
    subst head
    simp at upper
  · have digit := Nat.isDigit_of_mem_toDigits (by decide) (by decide) (List.mem_of_mem_head? head)
    have letter : 'A'.val ≤ first.val := (of_decide_eq_true upper).1
    have above : 'A'.toNat ≤ first.toNat := UInt32.le_iff_toNat_le.mp letter
    have below : first.toNat ≤ '9'.toNat := (Char.isDigit_iff_toNat.mp digit).2
    exact absurd (Nat.le_trans above below) (by decide)

/-- Members have different texts. -/
theorem text_injective : Function.Injective Member.text := by
  intro first second same
  cases first with
  | number value =>
    cases second with
    | number other =>
      have letters : value.repr.toList = other.repr.toList :=
        congrArg String.toList same
      rw [toList_repr_int, toList_repr_int] at letters
      rw [eq_of_signed (by decide) letters]
    | register id => exact absurd same (number_ne_register value id)
  | register id =>
    cases second with
    | number other => exact absurd same.symm (number_ne_register other id)
    | register other => rw [registerName_injective same]

end Member

namespace Domain

/-- Bounds are parts. -/
theorem boundText_part (bound : Int) : IsPart (boundText bound) := by
  by_cases negative : bound < 0
  · exact @isPart_of_toList _ ['m'] bound.natAbs
      (by simp [toList_boundText, negative]) (by decide)
  · exact @isPart_of_toList _ [] bound.natAbs
      (by simp [toList_boundText, negative]) (by decide)

/-- Bounds have different texts. -/
theorem boundText_injective : Function.Injective boundText := by
  intro first second same
  have letters := congrArg String.toList same
  rw [toList_boundText, toList_boundText] at letters
  exact eq_of_signed (by decide) letters

/-- The character behind the common start of all names. -/
def mark : Domain → Char
  | interval .. => '_'
  | enumeration _ => 'e'
  | integers _ signed => if signed then 'i' else 'u'

/-- What stands in a name behind its mark. -/
def markedText : Domain → String
  | interval least greatest => "_".intercalate [boundText least, boundText greatest]
  | enumeration members => "num__" ++ "_".intercalate (members.map Member.text)
  | integers width signed => (if signed then "nt" else "int") ++ toString width.bits

/-- A name is the common start, a mark and the rest. -/
theorem toList_name (domain : Domain) :
    domain.name.toList = "param_domain_".toList ++ domain.mark :: domain.markedText.toList := by
  cases domain with
  | interval least greatest =>
    have written : (interval least greatest).name =
        "param_domain__" ++ boundText least ++ "_" ++ boundText greatest := rfl
    have start : "param_domain__".toList = "param_domain_".toList ++ ['_'] := by decide
    simp only [written, mark, markedText, String.intercalate_cons_cons,
      String.intercalate_singleton, String.toList_append, start, List.append_assoc,
      List.cons_append, List.nil_append]
  | enumeration members =>
    have written : (enumeration members).name =
        "param_domain_enum__" ++ "_".intercalate (members.map Member.text) := rfl
    have start : "param_domain_enum__".toList =
        "param_domain_".toList ++ 'e' :: "num__".toList := by decide
    simp only [written, mark, markedText, String.toList_append, start, List.append_assoc,
      List.cons_append]
  | integers width signed =>
    have written : (integers width signed).name =
        (if signed then "param_domain_int" else "param_domain_uint") ++ toString width.bits := by
      cases signed <;> rfl
    have start : (if signed then "param_domain_int" else "param_domain_uint").toList =
        "param_domain_".toList ++ (if signed then 'i' else 'u') ::
          (if signed then "nt" else "int").toList := by
      cases signed <;> decide
    simp only [written, mark, markedText, String.toList_append, start, List.append_assoc,
      List.cons_append]

/-- Domains with the same name have the same mark and the same text behind it. -/
theorem marked_of_name {first second : Domain} (same : first.name = second.name) :
    first.mark = second.mark ∧ first.markedText = second.markedText := by
  have letters := congrArg String.toList same
  rw [toList_name, toList_name, List.append_cancel_left_eq, List.cons.injEq] at letters
  exact ⟨letters.1, String.toList_inj.mp letters.2⟩

/-- Machine widths have different numbers of bits. -/
theorem width_of_bits {first second : Width}
    (same : toString first.bits = toString second.bits) : first = second := by
  have checked : ∀ first second : Width,
      toString first.bits = toString second.bits → first = second := by
    intro first second
    cases first <;> cases second <;> decide
  exact checked first second same

/-- Different domains have different names. -/
theorem name_inj {first second : Domain} : first.name = second.name ↔ first = second := by
  refine ⟨fun same => ?_, fun same => congrArg name same⟩
  obtain ⟨marks, texts⟩ := marked_of_name same
  cases first with
  | interval least greatest =>
    cases second with
    | interval low high =>
      have each (low high : Int) : ∀ part ∈ [boundText low, boundText high], IsPart part := by
        simp [boundText_part]
      have bounds := eq_of_intercalate (each _ _) (each _ _) texts
      simp only [List.cons.injEq, and_true] at bounds
      rw [boundText_injective bounds.1, boundText_injective bounds.2]
    | enumeration members => simp [mark] at marks
    | integers width signed => cases signed <;> simp [mark] at marks
  | enumeration members =>
    cases second with
    | interval low high => simp [mark] at marks
    | enumeration others =>
      have each (listed : List Member) : ∀ part ∈ listed.map Member.text, IsPart part := by
        simp [Member.text_part]
      have parts := eq_of_intercalate (each members) (each others) (by simpa [markedText] using texts)
      rw [Member.text_injective.list_map parts]
    | integers width signed => cases signed <;> simp [mark] at marks
  | integers width signed =>
    cases second with
    | interval low high => cases signed <;> simp [mark] at marks
    | enumeration others => cases signed <;> simp [mark] at marks
    | integers other kind =>
      cases signed <;> cases kind <;> simp [mark] at marks
      · rw [@width_of_bits width other (by simpa [markedText] using texts)]
      · rw [@width_of_bits width other (by simpa [markedText] using texts)]

end Domain

end EncoderTables
