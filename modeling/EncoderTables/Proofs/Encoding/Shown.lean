import EncoderTables.Encoding.Node
import EncoderTables.Proofs.Domain.Names
import EncoderTables.Proofs.Encoding.Sameness
import EncoderTables.Proofs.Text.Reading

/-!
# Reading the texts of nodes

The text that shows a node is made of words, quoted texts and members between parentheses.
Such a term ends by itself: a word where no letter follows it, a quoted text at its quote and
a form at its closing parenthesis. So a sequence of nodes is read back from its text in one
way only, whatever follows the text, up to what sameness of nodes does not count: the
names of routines, and sizes given as truth values.
-/

namespace EncoderTables

namespace Text

/-- A letter or a digit, or the minus sign of a number. -/
def isWordPart (c : Char) : Bool := c.isAlphanum || c = '-'

/-- A row of letters, digits and minus signs, which may be empty. -/
@[ext]
structure Word where
  letters : List Char
  parts : ∀ c ∈ letters, isWordPart c = true

/-- The word of a name without other characters. -/
def Word.named (name : String) (parts : name.toList.all isWordPart = true := by decide) : Word :=
  ⟨name.toList, List.all_eq_true.mp parts⟩

/-- What shows a value: a word, a quoted text, or members in parentheses behind a word. -/
inductive Term where
  | plain (word : Word)
  | quoted (text : String)
  | form (head : Word) (members : List Term)

namespace Term

/-- Members in parentheses behind no word. -/
def tuple (members : List Term) : Term := .form (.named "") members

mutual

/-- The characters of a term. -/
def letters : Term → List Char
  | .plain word => word.letters
  | .quoted text => (Text.quoted text).toList
  | .form head members => head.letters ++ '(' :: inside members

/-- The characters of members behind the parenthesis before them; a single member is
followed by a comma. -/
def inside : List Term → List Char
  | [] => [')']
  | [member] => letters member ++ [',', ')']
  | member :: other :: more => letters member ++ behind (other :: more)

/-- The characters of members behind another one. -/
def behind : List Term → List Char
  | [] => [')']
  | member :: more => ',' :: ' ' :: (letters member ++ behind more)

end

/-- What may stand behind a term: nothing, a comma or a closing parenthesis. -/
def Ends (rest : List Char) : Prop := ∀ c ∈ rest.head?, c = ',' ∨ c = ')'

/-- The word at the start of a term. -/
def head : Term → Word
  | .plain word => word
  | .quoted _ => .named ""
  | .form head _ => head

/-- The characters of a term behind its first word. -/
def body : Term → List Char
  | .plain _ => []
  | .quoted text => (Text.quoted text).toList
  | .form _ members => '(' :: inside members

/-- A term is its first word and the rest. -/
theorem letters_eq (term : Term) : term.letters = term.head.letters ++ term.body := by
  cases term <;> simp [letters, head, body, Word.named]

end Term

/-- A word ends where no part of a word follows. -/
theorem Word.append {first second : Word} {rest others : List Char}
    (stop : ∀ c ∈ rest.head?, isWordPart c = false)
    (otherStop : ∀ c ∈ others.head?, isWordPart c = false)
    (same : first.letters ++ rest = second.letters ++ others) :
    first = second ∧ rest = others :=
  (eq_of_span first.parts second.parts stop otherStop same).imp_left Word.ext

namespace Term

/-- Behind the first word of a term stands no part of a word. -/
theorem body_stops (term : Term) {rest : List Char} (ends : Ends rest) :
    ∀ c ∈ (term.body ++ rest).head?, isWordPart c = false := by
  intro c member
  cases term with
  | plain word =>
    rcases ends c member with rfl | rfl <;> decide
  | quoted text =>
    rw [body, toList_quoted, List.cons_append, List.head?_cons, Option.mem_some_iff] at member
    subst member
    rcases isQuote_quoteFor text.toList with quote | quote <;> rw [quote] <;> decide
  | form head members =>
    rw [body, List.cons_append, List.head?_cons, Option.mem_some_iff] at member
    subst member
    decide

/-- A term that a comma follows does not start with a closing parenthesis. -/
theorem ne_closing (term : Term) {rest others : List Char} :
    term.letters ++ ',' :: rest ≠ ')' :: others := by
  intro same
  have ends : Ends (',' :: rest) := by simp [Ends]
  rw [letters_eq, List.append_assoc] at same
  have closing : ')' :: others = (Word.named "").letters ++ ')' :: others := rfl
  obtain ⟨-, found⟩ := Word.append (body_stops term ends) (by simp; decide) (same.trans closing)
  cases term with
  | plain word => cases found
  | quoted text =>
    rw [body, toList_quoted, List.cons_append] at found
    rcases isQuote_quoteFor text.toList with quote | quote <;> rw [quote] at found <;> cases found
  | form head members => cases found

/-- Terms that are read from the same text are of one kind; of forms the members are left. -/
theorem kinds {first second : Term} {rest others : List Char} (ends : Ends rest)
    (otherEnds : Ends others) (same : first.letters ++ rest = second.letters ++ others) :
    (first = second ∧ rest = others) ∨
      ∃ head members more, first = .form head members ∧ second = .form head more ∧
        inside members ++ rest = inside more ++ others := by
  rw [letters_eq first, letters_eq second, List.append_assoc, List.append_assoc] at same
  obtain ⟨heads, bodies⟩ :=
    Word.append (body_stops first ends) (body_stops second otherEnds) same
  have noQuote {text : String} {tail next : List Char} (stop : Ends tail) :
      tail ≠ (Text.quoted text).toList ++ next := by
    intro equal
    rw [equal, toList_quoted, List.cons_append] at stop
    have start := stop (quoteFor text.toList) (by rw [List.head?_cons, Option.mem_some_iff])
    rcases isQuote_quoteFor text.toList with quote | quote <;> rw [quote] at start <;>
      simp at start
  have noOpening {tail next : List Char} (stop : Ends tail) : tail ≠ '(' :: next := by
    rintro rfl
    simp [Ends] at stop
  have apart {text : String} {tail next : List Char} :
      (Text.quoted text).toList ++ tail ≠ '(' :: next := by
    rw [toList_quoted, List.cons_append]
    intro equal
    have start := (List.cons.inj equal).1
    rcases isQuote_quoteFor text.toList with quote | quote <;> rw [quote] at start <;>
      simp at start
  cases first with
  | plain one =>
    cases second with
    | plain two => exact Or.inl ⟨congrArg plain heads, bodies⟩
    | quoted text => exact absurd bodies (noQuote ends)
    | form head more => exact absurd bodies (noOpening ends)
  | quoted text =>
    cases second with
    | plain two => exact absurd bodies.symm (noQuote otherEnds)
    | quoted other => exact Or.inl ((quoted_append bodies).imp_left (congrArg quoted))
    | form head more => exact absurd bodies apart
  | form head members =>
    cases second with
    | plain two => exact absurd bodies.symm (noOpening otherEnds)
    | quoted text => exact absurd bodies.symm apart
    | form other more =>
      obtain rfl : head = other := heads
      exact Or.inr ⟨head, members, more, rfl, rfl, (List.cons.inj bodies).2⟩

/-- The characters behind the first of some members. -/
def after : List Term → List Char
  | [] => [',', ')']
  | member :: more => behind (member :: more)

/-- Members are the first one and those behind it. -/
theorem inside_cons (member : Term) (more : List Term) :
    inside (member :: more) = member.letters ++ after more := by
  cases more <;> simp [inside, after]

/-- Behind the first member stands a comma. -/
theorem after_eq (more : List Term) : ∃ tail, after more = ',' :: tail := by
  cases more with
  | nil => exact ⟨[')'], rfl⟩
  | cons member more => exact ⟨_, by rw [after, behind]⟩

/-- A term can end before the members behind the first one. -/
theorem ends_after (more : List Term) (rest : List Char) : Ends (after more ++ rest) := by
  obtain ⟨tail, comma⟩ := after_eq more
  simp [comma, Ends]

/-- A term can end before the members behind another one. -/
theorem ends_behind (more : List Term) (rest : List Char) : Ends (behind more ++ rest) := by
  cases more <;> simp [behind, Ends]

/-- Members behind the first one are none in both texts or are read in both. -/
theorem after_kinds {members more : List Term} {rest others : List Char}
    (same : after members ++ rest = after more ++ others) :
    (members = more ∧ rest = others) ∨ behind members ++ rest = behind more ++ others := by
  cases members with
  | nil =>
    cases more with
    | nil => exact Or.inl ⟨rfl, List.append_cancel_left same⟩
    | cons other more => simp [after, behind] at same
  | cons member members =>
    cases more with
    | nil => simp [after, behind] at same
    | cons other more => exact Or.inr same

mutual

/-- A term is read in one way, whatever follows it. -/
theorem append : (first second : Term) → {rest others : List Char} → Ends rest → Ends others →
    first.letters ++ rest = second.letters ++ others → first = second ∧ rest = others
  | .plain _, _ => fun ends otherEnds same => (kinds ends otherEnds same).resolve_right (by simp)
  | .quoted _, _ => fun ends otherEnds same => (kinds ends otherEnds same).resolve_right (by simp)
  | .form head members, second => by
    intro ends otherEnds same
    rcases kinds ends otherEnds same with equal | ⟨_, _, more, kind, other, inner⟩
    · exact equal
    · cases kind
      obtain ⟨lists, behind⟩ := inside_append members more inner
      exact ⟨by rw [other, lists], behind⟩

/-- Members up to the closing parenthesis are read in one way, whatever follows it. -/
theorem inside_append : (first second : List Term) → {rest others : List Char} →
    inside first ++ rest = inside second ++ others → first = second ∧ rest = others
  | [], [], _, _, same => ⟨rfl, by simpa [inside] using same⟩
  | [], member :: more, _, _, same => by
    obtain ⟨tail, comma⟩ := after_eq more
    rw [inside_cons, comma, List.append_assoc] at same
    exact absurd same.symm member.ne_closing
  | member :: more, [], _, _, same => by
    obtain ⟨tail, comma⟩ := after_eq more
    rw [inside_cons, comma, List.append_assoc] at same
    exact absurd same member.ne_closing
  | one :: members, two :: more, rest, others, same => by
    rw [inside_cons, inside_cons, List.append_assoc, List.append_assoc] at same
    obtain ⟨heads, tails⟩ := append one two (ends_after _ _) (ends_after _ _) same
    rcases after_kinds tails with ⟨lists, further⟩ | inner
    · exact ⟨congrArg₂ List.cons heads lists, further⟩
    · obtain ⟨lists, further⟩ := behind_append members more inner
      exact ⟨congrArg₂ List.cons heads lists, further⟩

/-- Members behind another one are read in one way, whatever follows them. -/
theorem behind_append : (first second : List Term) → {rest others : List Char} →
    behind first ++ rest = behind second ++ others → first = second ∧ rest = others
  | [], [], _, _, same => ⟨rfl, by simpa [behind] using same⟩
  | [], member :: more, _, _, same => by simp [behind] at same
  | member :: more, [], _, _, same => by simp [behind] at same
  | one :: members, two :: more, rest, others, same => by
    simp only [behind, List.cons_append, List.append_assoc, List.cons.injEq, true_and] at same
    obtain ⟨heads, tails⟩ := append one two (ends_behind _ _) (ends_behind _ _) same
    obtain ⟨lists, further⟩ := behind_append members more tails
    exact ⟨congrArg₂ List.cons heads lists, further⟩

end

end Term

end Text

open Text

/-- A value that an encoding holds as a constant: a whole number, a truth value or a text. -/
def Scalar.isConstant : Scalar → Bool
  | number _ | truth _ | text _ => true
  | decimal .. | record _ | absent => false

/-- The characters of a number are parts of a word. -/
theorem isWordPart_of_mem_repr {c : Char} {value : Int} (member : c ∈ value.repr.toList) :
    isWordPart c = true := by
  have digit {n : Nat} (listed : c ∈ Nat.toDigits 10 n) : isWordPart c = true := by
    have decimal := Nat.isDigit_of_mem_toDigits (by decide) (by decide) listed
    simp [isWordPart, Char.isAlphanum, decimal]
  rw [toList_repr_int] at member
  split at member
  · rcases List.mem_cons.mp member with rfl | listed
    · decide
    · exact digit listed
  · exact digit member

/-- The word of a number. -/
def Text.Word.ofInt (value : Int) : Word :=
  ⟨value.repr.toList, fun _ => isWordPart_of_mem_repr⟩

/-- Numbers have different words. -/
theorem Text.Word.ofInt_injective : Function.Injective Word.ofInt := by
  intro first second same
  have letters := congrArg Word.letters same
  simp only [Word.ofInt, toList_repr_int] at letters
  exact eq_of_signed (by decide) letters

/-- The term that shows a constant; other values have none of their own. -/
def Scalar.term : Scalar → Term
  | number value => .plain (.ofInt value)
  | truth true => .plain (.named "True")
  | truth false => .plain (.named "False")
  | text value => .quoted value
  | decimal .. | record _ | absent => .plain (.named "")

/-- The text of a constant is that of its term. -/
theorem Scalar.toList_shown {value : Scalar} (constant : value.isConstant = true) :
    value.shown.toList = value.term.letters := by
  cases value with
  | number value => rfl
  | truth value => cases value <;> rfl
  | text value => rfl
  | decimal mantissa places => cases constant
  | record entries => cases constant
  | absent => cases constant

/-- The word of a number starts with a digit or a minus sign. -/
theorem Text.Word.head_ofInt {value : Int} {c : Char} (first : c ∈ (ofInt value).letters.head?) :
    c = '-' ∨ c.isDigit = true := by
  simp only [ofInt, toList_repr_int] at first
  split at first
  · exact Or.inl (Option.mem_some_iff.mp first).symm
  · exact Or.inr (Nat.isDigit_of_mem_toDigits (by decide) (by decide)
      (List.mem_of_mem_head? first))

/-- Constants are known by their terms. -/
theorem Scalar.eq_of_term {first second : Scalar} (one : first.isConstant = true)
    (two : second.isConstant = true) (same : first.term = second.term) : first = second := by
  have noTruth (value : Int) (truth : Bool) : (number value).term ≠ (Scalar.truth truth).term := by
    intro equal
    cases truth <;> rw [term, term, Term.plain.injEq] at equal
    · have start : 'F' ∈ (Word.ofInt value).letters.head? := by rw [equal]; rfl
      exact absurd (Word.head_ofInt start) (by decide)
    · have start : 'T' ∈ (Word.ofInt value).letters.head? := by rw [equal]; rfl
      exact absurd (Word.head_ofInt start) (by decide)
  cases first with
  | number value =>
    cases second with
    | number other => rw [Word.ofInt_injective (Term.plain.inj same)]
    | truth other => exact absurd same (noTruth value other)
    | text other => cases same
    | _ => cases two
  | truth value =>
    cases second with
    | number other => exact absurd same.symm (noTruth other value)
    | truth other => cases value <;> cases other <;> first | rfl | simp [term, Word.named] at same
    | text other => cases value <;> cases same
    | _ => cases two
  | text value =>
    cases second with
    | number other => cases same
    | truth other => cases other <;> cases same
    | text other => rw [Term.quoted.inj same]
    | _ => cases two
  | _ => cases one

namespace Node

mutual

/-- Whether a node is built of nodes only: no value or list stands in the place of one, and
its constants are whole numbers, truth values and texts. -/
def isBuilt : Node → Bool
  | bare _ | group _ | literalList _ => false
  | literal value => value.isConstant
  | param _ | isSet _ | abort _ => true
  | unary _ inner => isBuilt inner
  | binary _ left right => isBuilt left && isBuilt right
  | write value _ => isBuilt value
  | packed values sizes => areBuilt values && sizes.all fun size => size.whole?.isSome
  | branch condition taken otherwise => isBuilt condition && areBuilt taken && areBuilt otherwise
  | routine _ members => areBuilt members
  | call target => isBuilt target
  | unordered members order => areBuilt members && order.isConstant

/-- Whether several nodes are built of nodes only. -/
def areBuilt : List Node → Bool
  | [] => true
  | node :: rest => isBuilt node && areBuilt rest

end

mutual

/-- The term that shows a node; what stands in the place of a node has none of its own. -/
def term : Node → Term
  | bare _ | group _ | literalList _ => .plain (.named "")
  | literal value => .form (.named "Literal") [.quoted value.kind, value.term]
  | param name => .form (.named "Param") [.quoted name]
  | isSet name => .form (.named "IsSet") [.quoted name]
  | unary symbol inner => .form (.named "UnaryOp") [.quoted symbol, inner.term]
  | binary symbol left right =>
    .form (.named "BinaryOp") [.quoted symbol, left.term, right.term]
  | write value size => .form (.named "Write") [value.term, .plain (.ofInt size)]
  | packed values sizes =>
    .form (.named "Write") [.tuple (termAll values), .tuple (sizes.map Scalar.term)]
  | branch condition taken otherwise =>
    .form (.named "If") [condition.term, .tuple (termAll taken), .tuple (termAll otherwise)]
  | abort message => .form (.named "Error") [.quoted message]
  | routine _ members => .form (.named "Routine") (termAll members)
  | call target => .form (.named "Call") [target.term]
  | unordered members order =>
    .form (.named "UnorderedWrites") [.tuple (termAll members), order.term]

/-- The terms that show several nodes. -/
def termAll : List Node → List Term
  | [] => []
  | node :: rest => node.term :: termAll rest

end

/-- Texts between separators are the first of them and the others. -/
theorem intercalate_letters (first : List Char) (terms : List Term) :
    List.intercalate [',', ' '] (first :: terms.map Term.letters) ++ [')'] =
      first ++ Term.behind terms := by
  induction terms generalizing first with
  | nil => simp [Term.behind]
  | cons term rest inductionHypothesis =>
    rw [List.map_cons, List.intercalate_cons_cons, List.append_assoc, List.append_assoc,
      inductionHypothesis]
    simp [Term.behind]

/-- A tuple of texts is the form of their terms. -/
theorem toList_tuple {texts : List String} {terms : List Term}
    (same : texts.map String.toList = terms.map Term.letters) :
    (tuple texts).toList = '(' :: Term.inside terms := by
  match texts, terms with
  | [], [] => rfl
  | [], _ :: _ | _ :: _, [] => simp at same
  | [text], [term] =>
    simp only [List.map_cons, List.map_nil, List.cons.injEq, and_true] at same
    simp [tuple, Term.inside, same]
  | [_], _ :: _ :: _ | _ :: _ :: _, [_] => simp at same
  | text :: other :: more, first :: second :: rest =>
    have shown : (tuple (text :: other :: more)).toList = '(' ::
        (List.intercalate [',', ' '] ((text :: other :: more).map String.toList) ++ [')']) := by
      simp [tuple, String.toList_intercalate]
    rw [shown, same, List.map_cons, intercalate_letters, Term.inside]

/-- A name before a tuple of texts is the form of their terms. -/
theorem toList_form {name : String} {parts : name.toList.all isWordPart = true}
    {texts : List String} {terms : List Term}
    (same : texts.map String.toList = terms.map Term.letters) :
    (name ++ tuple texts).toList = (Term.form (.named name parts) terms).letters := by
  rw [String.toList_append, toList_tuple same, Term.letters, Word.named]

/-- Sizes are shown by their terms. -/
theorem map_shown_sizes {sizes : List Scalar}
    (whole : (sizes.all fun size => size.whole?.isSome) = true) :
    (sizes.map Scalar.shown).map String.toList = (sizes.map Scalar.term).map Term.letters := by
  rw [List.map_map, List.map_map]
  apply List.map_congr_left
  intro size member
  have number := List.all_eq_true.mp whole size member
  apply Scalar.toList_shown
  cases size <;> first | rfl | cases number

/-- A tuple of texts behind no name is the form of their terms. -/
theorem toList_tuple_term {texts : List String} {terms : List Term}
    (same : texts.map String.toList = terms.map Term.letters) :
    (tuple texts).toList = (Term.tuple terms).letters :=
  toList_tuple same

mutual

/-- The text of a node is that of its term. -/
theorem toList_shown : (node : Node) → node.isBuilt = true →
    node.shown.toList = node.term.letters
  | .bare _, built | .group _, built | .literalList _, built => by cases built
  | .literal value, built =>
    toList_form (by simp [Scalar.toList_shown built, Term.letters])
  | .param name, _ | .isSet name, _ | .abort name, _ =>
    toList_form (by simp [Term.letters])
  | .unary symbol inner, built =>
    toList_form (by simp [toList_shown inner built, Term.letters])
  | .binary symbol left right, built => by
    rw [isBuilt, Bool.and_eq_true] at built
    exact toList_form (by
      simp [toList_shown left built.1, toList_shown right built.2, Term.letters])
  | .write value size, built =>
    have width : size.repr.toList = (Word.ofInt size).letters := rfl
    toList_form (by simp [toList_shown value built, Term.letters, width])
  | .packed values sizes, built => by
    rw [isBuilt, Bool.and_eq_true] at built
    exact toList_form (by
      simp [toList_tuple_term (toList_shownAll values built.1),
        toList_tuple_term (map_shown_sizes built.2)])
  | .branch condition taken otherwise, built => by
    rw [isBuilt, Bool.and_eq_true, Bool.and_eq_true] at built
    obtain ⟨⟨first, second⟩, third⟩ := built
    exact toList_form (by
      simp [toList_shown condition first, toList_tuple_term (toList_shownAll taken second),
        toList_tuple_term (toList_shownAll otherwise third)])
  | .routine _ members, built => toList_form (toList_shownAll members built)
  | .call target, built => toList_form (by simp [toList_shown target built])
  | .unordered members order, built => by
    rw [isBuilt, Bool.and_eq_true] at built
    exact toList_form (by
      simp [toList_tuple_term (toList_shownAll members built.1),
        Scalar.toList_shown built.2])

/-- The texts of nodes are those of their terms. -/
theorem toList_shownAll : (nodes : List Node) → areBuilt nodes = true →
    (shownAll nodes).map String.toList = (termAll nodes).map Term.letters
  | [], _ => rfl
  | node :: rest, built => by
    rw [areBuilt, Bool.and_eq_true] at built
    simp only [shownAll, termAll, List.map_cons, toList_shown node built.1,
      toList_shownAll rest built.2]

end

/-- A size that counts as a whole number is a constant. -/
theorem isConstant_of_whole {size : Scalar} (whole : size.whole?.isSome = true) :
    size.isConstant = true := by
  cases size <;> first | rfl | cases whole

/-- Sizes with the same terms are the same. -/
theorem sizes_of_term {sizes others : List Scalar}
    (one : (sizes.all fun size => size.whole?.isSome) = true)
    (two : (others.all fun size => size.whole?.isSome) = true)
    (equal : sizes.map Scalar.term = others.map Scalar.term) : sizes = others := by
  rw [List.all_eq_true] at one two
  induction sizes generalizing others with
  | nil => exact (List.map_eq_nil_iff.mp equal.symm).symm
  | cons size rest inductionHypothesis =>
    cases others with
    | nil => cases equal
    | cons other more =>
      obtain ⟨head, tail⟩ := List.cons.inj equal
      obtain ⟨own, later⟩ := List.forall_mem_cons.mp one
      obtain ⟨alike, further⟩ := List.forall_mem_cons.mp two
      rw [Scalar.eq_of_term (isConstant_of_whole own) (isConstant_of_whole alike) head,
        inductionHypothesis later further tail]

/-- A node is not shown by members in parentheses alone. -/
theorem term_ne_tuple (node : Node) (members : List Term) : node.term ≠ .tuple members := by
  cases node <;> simp [term, Term.tuple, Word.named]

mutual

/-- Nodes with the same term are the same. -/
theorem same_of_term : (first second : Node) → first.isBuilt = true → second.isBuilt = true →
    first.term = second.term → same first second = true
  | .bare _, _, one, _, _ | .group _, _, one, _, _ | .literalList _, _, one, _, _ => by cases one
  | .literal value, second, one, two, equal => by
    cases second with
    | literal other =>
      simp only [term, Term.form.injEq, List.cons.injEq, and_true, true_and] at equal
      rw [Scalar.eq_of_term one two equal.2]
      exact same_refl _
    | _ => simp [term, Word.named] at equal
  | .param name, second, _, _, equal | .isSet name, second, _, _, equal
  | .abort name, second, _, _, equal => by
    cases second <;> simp_all [term, Word.named, same]
  | .unary symbol inner, second, one, two, equal => by
    cases second with
    | unary other operand =>
      simp only [term, Term.form.injEq, List.cons.injEq, and_true, true_and,
        Term.quoted.injEq] at equal
      simp [same, equal.1, same_of_term inner operand one two equal.2]
    | _ => simp [term, Word.named] at equal
  | .binary symbol left right, second, one, two, equal => by
    cases second with
    | binary other start stop =>
      simp only [term, Term.form.injEq, List.cons.injEq, and_true, true_and,
        Term.quoted.injEq] at equal
      rw [isBuilt, Bool.and_eq_true] at one two
      simp [same, equal.1, same_of_term left start one.1 two.1 equal.2.1,
        same_of_term right stop one.2 two.2 equal.2.2]
    | _ => simp [term, Word.named] at equal
  | .write value size, second, one, two, equal => by
    cases second with
    | write other width =>
      simp only [term, Term.form.injEq, List.cons.injEq, and_true, true_and,
        Term.plain.injEq] at equal
      simp [same, Word.ofInt_injective equal.2, same_of_term value other one two equal.1]
    | packed values sizes =>
      simp only [term, Term.form.injEq, List.cons.injEq, and_true, true_and] at equal
      exact absurd equal.1 (term_ne_tuple value _)
    | _ => simp [term, Word.named] at equal
  | .packed values sizes, second, one, two, equal => by
    rw [isBuilt, Bool.and_eq_true] at one
    cases second with
    | write other width =>
      simp only [term, Term.form.injEq, List.cons.injEq, and_true, true_and] at equal
      exact absurd equal.1.symm (term_ne_tuple other _)
    | packed others widths =>
      simp only [term, Term.form.injEq, List.cons.injEq, and_true, true_and, Term.tuple] at equal
      rw [isBuilt, Bool.and_eq_true] at two
      simp [same, sizes_of_term one.2 two.2 equal.2,
        sameAll_of_termAll values others one.1 two.1 equal.1]
    | _ => simp [term, Word.named] at equal
  | .branch condition taken otherwise, second, one, two, equal => by
    cases second with
    | branch other actions rest =>
      simp only [term, Term.form.injEq, List.cons.injEq, and_true, true_and, Term.tuple] at equal
      simp only [isBuilt, Bool.and_eq_true] at one two
      obtain ⟨⟨oneHead, oneTaken⟩, oneRest⟩ := one
      obtain ⟨⟨twoHead, twoTaken⟩, twoRest⟩ := two
      simp [same, same_of_term condition other oneHead twoHead equal.1,
        sameAll_of_termAll taken actions oneTaken twoTaken equal.2.1,
        sameAll_of_termAll otherwise rest oneRest twoRest equal.2.2]
    | _ => simp [term, Word.named] at equal
  | .routine _ members, second, one, two, equal => by
    cases second with
    | routine name others =>
      simp only [term, Term.form.injEq, true_and] at equal
      exact sameAll_of_termAll members others one two equal
    | _ => simp [term, Word.named] at equal
  | .call target, second, one, two, equal => by
    cases second with
    | call other =>
      simp only [term, Term.form.injEq, List.cons.injEq, and_true, true_and] at equal
      exact same_of_term target other one two equal
    | _ => simp [term, Word.named] at equal
  | .unordered members order, second, one, two, equal => by
    cases second with
    | unordered others parameter =>
      simp only [term, Term.form.injEq, List.cons.injEq, and_true, true_and, Term.tuple] at equal
      rw [isBuilt, Bool.and_eq_true] at one two
      simp [same, Scalar.eq_of_term one.2 two.2 equal.2,
        sameAll_of_termAll members others one.1 two.1 equal.1]
    | _ => simp [term, Word.named] at equal

/-- Nodes with the same terms are the same. -/
theorem sameAll_of_termAll : (first second : List Node) → areBuilt first = true →
    areBuilt second = true → termAll first = termAll second → sameAll first second = true
  | [], [], _, _, _ => rfl
  | [], _ :: _, _, _, equal | _ :: _, [], _, _, equal => by cases equal
  | node :: rest, other :: others, one, two, equal => by
    rw [areBuilt, Bool.and_eq_true] at one two
    obtain ⟨heads, tails⟩ := List.cons.inj equal
    rw [sameAll, same_of_term node other one.1 two.1 heads,
      sameAll_of_termAll rest others one.2 two.2 tails]
    rfl

end

/-- The text of a whole encoding is read in one way, whatever follows it. -/
theorem shownEncoding_append {first second : List Node} {rest others : List Char}
    (one : areBuilt first = true) (two : areBuilt second = true)
    (equal : (shownEncoding first).toList ++ rest = (shownEncoding second).toList ++ others) :
    sameAll first second = true ∧ rest = others := by
  rw [shownEncoding, shownEncoding, toList_tuple (toList_shownAll first one),
    toList_tuple (toList_shownAll second two)] at equal
  obtain ⟨terms, behind⟩ := Term.inside_append _ _ (List.cons.inj equal).2
  exact ⟨sameAll_of_termAll first second one two terms, behind⟩

end Node

end EncoderTables
