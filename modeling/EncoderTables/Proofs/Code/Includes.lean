import EncoderTables.Code.File
import EncoderTables.Proofs.Code.LaidLines
import EncoderTables.Proofs.Code.Widths
import EncoderTables.Proofs.Results
import Mathlib.Data.List.Nodup
import Mathlib.Data.List.Sort
import Mathlib.Data.String.Basic

/-!
# Included files

A file includes what has been added to it and what its elements need, each file once: system files
before local ones, each part in order. Such a line is never broken, as its only blank is too far
from the end of the page, so it stands in the text as it is. The text does not depend on the order
in which files are added, nor on whether the file has been written before or what it held.
-/

namespace EncoderTables.Code

open Results

namespace Element

/-- What an element needs: the files of its type, those of the result, the parameters and the body
of a function, those of the members of a union or a structure, and those that code lists. -/
inductive Needs : Element → String → Prop where
  | type {shape : TypeRef} {file : String} (listed : file ∈ shape.includes) :
    Needs (.type shape) file
  | parameter {declared : Parameter} {file : String} (listed : file ∈ declared.type.includes) :
    Needs (.parameter declared) file
  | value {declared : Variable} {file : String} (listed : file ∈ declared.type.includes) :
    Needs (.value declared) file
  | field {declared : Field} {file : String} (listed : file ∈ declared.type.includes) :
    Needs (.field declared) file
  | result {comment : Comment} {name file : String} {result : TypeRef} {parameters : List Element}
    {body : Element} {isPrivate isInline : Bool} (listed : file ∈ result.includes) :
    Needs (.function comment name result parameters body isPrivate isInline) file
  | argument {comment : Comment} {name file : String} {result : TypeRef} {parameters : List Element}
    {body parameter : Element} {isPrivate isInline : Bool} (member : parameter ∈ parameters)
    (inside : Needs parameter file) :
    Needs (.function comment name result parameters body isPrivate isInline) file
  | body {comment : Comment} {name file : String} {result : TypeRef} {parameters : List Element}
    {body : Element} {isPrivate isInline : Bool} (inside : Needs body file) :
    Needs (.function comment name result parameters body isPrivate isInline) file
  | union {comment : Comment} {name packing file : String} {members : List Element}
    {element : Element} (member : element ∈ members) (inside : Needs element file) :
    Needs (.union comment name members packing) file
  | record {comment : Comment} {name file : String} {members : List Element} {isTypedef : Bool}
    {element : Element} (member : element ∈ members) (inside : Needs element file) :
    Needs (.record comment name members isTypedef) file
  | code {text file : String} {files : List String} {locals : List Element}
    (listed : file ∈ files) : Needs (.code text files locals) file

/-- A file that is added to a list is in it. -/
@[simp]
theorem mem_withFile {includes : List String} {added file : String} :
    file ∈ withFile includes added ↔ file ∈ includes ∨ file = added := by
  unfold withFile
  split
  · next known => simpa using fun same => same ▸ List.contains_iff_mem.mp known
  · simp

/-- Files that are added to a list are in it. -/
@[simp]
theorem mem_withFiles {includes files : List String} {file : String} :
    file ∈ withFiles includes files ↔ file ∈ includes ∨ file ∈ files := by
  unfold withFiles
  induction files generalizing includes with
  | nil => simp
  | cons added rest inductionHypothesis => simp [inductionHypothesis, or_assoc]

/-- A file is added once. -/
theorem nodup_withFile {includes : List String} (distinct : includes.Nodup) (added : String) :
    (withFile includes added).Nodup := by
  unfold withFile
  split
  · exact distinct
  · next new =>
    have absent : added ∉ includes := fun member => new (List.contains_iff_mem.mpr member)
    rw [← List.concat_eq_append]
    exact distinct.concat absent

/-- Files are added once. -/
theorem nodup_withFiles {includes : List String} (distinct : includes.Nodup) (files : List String) :
    (withFiles includes files).Nodup := by
  unfold withFiles
  induction files generalizing includes with
  | nil => exact distinct
  | cons added rest inductionHypothesis => exact inductionHypothesis (nodup_withFile distinct added)

mutual

/-- The files of an element are those that it needs. -/
theorem mem_includes {file : String} : (element : Element) →
    (file ∈ includes element ↔ Needs element file)
  | .type shape => by
    rw [includes]
    exact ⟨.type, fun | .type listed => listed⟩
  | .parameter declared => by
    rw [includes]
    exact ⟨.parameter, fun | .parameter listed => listed⟩
  | .value declared => by
    rw [includes]
    exact ⟨.value, fun | .value listed => listed⟩
  | .enumeration listed => by
    rw [includes]
    exact ⟨fun none => absurd none List.not_mem_nil, nofun⟩
  | .field declared => by
    rw [includes]
    exact ⟨.field, fun | .field listed => listed⟩
  | .function comment name result parameters body isPrivate isInline => by
    rw [includes, mem_withFiles, mem_withFiles, mem_includesOfAll parameters, mem_includes body]
    constructor
    · rintro ((listed | ⟨parameter, member, inside⟩) | inside)
      · exact .result listed
      · exact .argument member inside
      · exact .body inside
    · rintro (_ | _ | _ | _ | listed | ⟨member, inside⟩ | inside | _ | _ | _)
      · exact Or.inl (Or.inl listed)
      · exact Or.inl (Or.inr ⟨_, member, inside⟩)
      · exact Or.inr inside
  | .union comment name members packing => by
    rw [includes, mem_withFiles, mem_includesOfAll members]
    constructor
    · rintro (none | ⟨element, member, inside⟩)
      · exact absurd none List.not_mem_nil
      · exact .union member inside
    · rintro (_ | _ | _ | _ | _ | _ | _ | ⟨member, inside⟩ | _ | _)
      exact Or.inr ⟨_, member, inside⟩
  | .record comment name members isTypedef => by
    rw [includes, mem_withFiles, mem_includesOfAll members]
    constructor
    · rintro (none | ⟨element, member, inside⟩)
      · exact absurd none List.not_mem_nil
      · exact .record member inside
    · rintro (_ | _ | _ | _ | _ | _ | _ | _ | ⟨member, inside⟩ | _)
      exact Or.inr ⟨_, member, inside⟩
  | .code text files locals => by
    rw [includes]
    exact ⟨.code, fun | .code listed => listed⟩

/-- The files of several elements are those that one of them needs. -/
theorem mem_includesOfAll {file : String} : (elements : List Element) →
    (file ∈ includesOfAll elements ↔ ∃ element ∈ elements, Needs element file)
  | [] => by simp [includesOfAll]
  | element :: rest => by
    rw [includesOfAll, List.mem_append, mem_includes element, mem_includesOfAll rest]
    simp

end

end Element

namespace Printer

/-- A printer with a text in front of what it has written. -/
def behind (text : String) (printer : Printer) : Printer :=
  { printer with output := text ++ printer.output }

/-- What has been written before does not matter to a line. -/
theorem putLine_behind (page : Page) (split : Option Char) (leader lead : List Char) (text : String)
    (printer : Printer) (raw : List Char) :
    putLine page split leader lead (printer.behind text) raw =
      (putLine page split leader lead printer raw).behind text := by
  unfold putLine behind
  dsimp only
  split <;> simp [String.append_assoc]

/-- What has been written before does not matter to the lines of a chunk. -/
theorem putLines_behind (page : Page) (split : Option Char) (leader : List Char) (text : String)
    (printer : Printer) (lines : List (List Char)) :
    putLines page split leader (printer.behind text) lines =
      (putLines page split leader printer lines).behind text := by
  have later (rest : List (List Char)) (printer : Printer) :
      rest.foldl (putLine page split leader leader) (printer.behind text) =
        (rest.foldl (putLine page split leader leader) printer).behind text := by
    induction rest generalizing printer with
    | nil => rfl
    | cons line rest inductionHypothesis =>
      rw [List.foldl_cons, List.foldl_cons, putLine_behind, inductionHypothesis]
  cases lines with
  | nil => rfl
  | cons first rest => rw [putLines, putLines, putLine_behind, later]

/-- What has been written before does not matter to chunks. -/
theorem writeAll_behind (page : Page) (text : String) (printer : Printer) (chunks : List Chunk) :
    writeAll page (printer.behind text) chunks = (writeAll page printer chunks).behind text := by
  induction chunks generalizing printer with
  | nil => rfl
  | cons chunk rest inductionHypothesis =>
    have own : write page (printer.behind text) chunk = (write page printer chunk).behind text := by
      simp only [write, putLines_behind]
      rfl
    rw [writeAll, writeAll, List.foldl_cons, List.foldl_cons, own]
    exact inductionHypothesis _

end Printer

/-- The text of chunks laid out by a printer that starts at a depth. -/
def layOutFrom (page : Page) (depth : Nat) (chunks : List Chunk) : String :=
  ((Printer.writeAll page ⟨"", depth, []⟩ chunks).flush).output

/-- Behind chunks that leave no incomplete line, further ones are laid out from the depth that the
printer has there. -/
theorem layOutFrom_append (page : Page) (depth : Nat) {front : List Chunk}
    (empty : (Printer.writeAll page ⟨"", depth, []⟩ front).buffer = []) :
    ∃ later, ∀ back, layOutFrom page depth (front ++ back) =
      layOutFrom page depth front ++ layOutFrom page later back := by
  set reached := Printer.writeAll page ⟨"", depth, []⟩ front with isReached
  refine ⟨reached.depth, fun back => ?_⟩
  have start : reached = (⟨"", reached.depth, []⟩ : Printer).behind reached.output := by
    rw [Printer.behind, String.append_empty, ← empty]
  have parts : Printer.writeAll page ⟨"", depth, []⟩ (front ++ back) =
      (Printer.writeAll page ⟨"", reached.depth, []⟩ back).behind reached.output := by
    rw [Printer.writeAll, List.foldl_append, ← Printer.writeAll_behind, ← start]
    rfl
  rw [layOutFrom, parts, layOutFrom, ← isReached, Printer.flush, Printer.flush, empty]
  simp [Printer.behind, layOutFrom, Printer.flush, String.append_assoc]

/-- A text that is written as it stands when no incomplete line waits. -/
def IsVerbatim (page : Page) (text : String) : Prop :=
  ∀ printer : Printer, printer.buffer = [] →
    (printer.write page (.plain text)).output = printer.output ++ text ∧
      (printer.write page (.plain text)).buffer = []

/-- Texts that are written as they stand are laid out so. -/
theorem layOutFrom_verbatim {page : Page} {texts : List String}
    (verbatim : ∀ text ∈ texts, IsVerbatim page text) (depth : Nat) :
    layOutFrom page depth (texts.map Chunk.plain) = String.join texts ∧
      (Printer.writeAll page ⟨"", depth, []⟩ (texts.map Chunk.plain)).buffer = [] := by
  have written (printer : Printer) (waiting : printer.buffer = []) :
      (printer.writeAll page (texts.map Chunk.plain)).output =
          printer.output ++ String.join texts ∧
        (printer.writeAll page (texts.map Chunk.plain)).buffer = [] := by
    induction texts generalizing printer with
    | nil => simp [Printer.writeAll, String.join_nil, waiting]
    | cons text rest inductionHypothesis =>
      obtain ⟨own, others⟩ := List.forall_mem_cons.mp verbatim
      obtain ⟨output, empty⟩ := own printer waiting
      obtain ⟨outputs, emptyToo⟩ := inductionHypothesis others _ empty
      rw [output, String.append_assoc, ← String.join_cons] at outputs
      exact ⟨outputs, emptyToo⟩
  obtain ⟨output, empty⟩ := written ⟨"", depth, []⟩ rfl
  refine ⟨?_, empty⟩
  rw [layOutFrom, Printer.flush, output, empty]
  simp

/-- An empty line is written as it stands. -/
theorem isVerbatim_blank (page : Page) : IsVerbatim page "\n" := by
  rintro ⟨output, depth, buffer⟩ rfl
  exact ⟨rfl, rfl⟩

/-- A directive of one visible word is not broken on a page that is wide enough. -/
theorem wrap_include {page : Page} (wide : 20 ≤ page.width) {word : List Char}
    (visible : ∀ c ∈ word, Text.isBlank c = false) :
    wrap page (some ' ') [] [] ("#include ".toList ++ word) = ["#include ".toList ++ word] := by
  -- The only blank stands in front of the word, which is too early for a break.
  have unbroken : breakAt? ("#include ".toList ++ word) page.width (some ' ') 0 = none := by
    rw [breakAt?_eq_none_iff]
    intro position late inside c listed
    obtain rfl : c = ' ' := by simpa [breakChars] using listed
    have behind : 9 ≤ position := by
      simp only [lookBack] at late
      omega
    have other : ("#include ".toList ++ word)[position]? ≠ some ' ' := by
      rw [List.getElem?_append_right (by simpa using behind)]
      intro blank
      exact absurd (visible ' ' (List.mem_of_getElem? blank)) (by decide)
    rw [breaks, beq_eq_false_iff_ne.mpr other, Bool.false_and]
  unfold wrap
  dsimp only
  split
  · rfl
  · unfold wrapFrom
    dsimp only
    split
    · rfl
    · split
      · rfl
      · next found => exact absurd (unbroken.symm.trans found) (by simp)

/-- A directive is written behind no blanks. -/
theorem output_putLine_directive (page : Page) (split : Option Char) (printer : Printer)
    {line : List Char} (trimmed : Text.IsTrimmed line) (directive : isDirective line = true) :
    (Printer.putLine page split [] [] printer line).output =
      printer.output ++ Printer.ended (wrap page split [] [] line) := by
  have filled : line ≠ [] := by
    rintro rfl
    cases directive
  simp [Printer.putLine, trimmed.trim_eq, filled, Printer.margin, directive]

/-- A directive of one visible word is written as it stands on a page that is wide enough. -/
theorem isVerbatim_include {page : Page} (wide : 20 ≤ page.width) {word : String}
    (filled : word ≠ "") (visible : ∀ c ∈ word.toList, Text.isBlank c = false) :
    IsVerbatim page ("#include " ++ word ++ "\n") := by
  rintro ⟨output, depth, buffer⟩ rfl
  set line := "#include ".toList ++ word.toList with isLine
  have whole : '\n' ∉ line := by
    rw [isLine, List.mem_append, not_or]
    exact ⟨by decide, fun member => absurd (visible _ member) (by decide)⟩
  have noTab : '\t' ∉ ("#include " ++ word ++ "\n").toList := by
    simp only [String.toList_append, List.mem_append, not_or]
    exact ⟨⟨by decide, fun member => absurd (visible _ member) (by decide)⟩, by decide⟩
  have expanded : Text.expandTabs page.indent ("#include " ++ word ++ "\n").toList =
      line ++ '\n' :: [] := by
    rw [Text.expandTabs, (Text.widened_expandFrom page.indent 0 _).eq_of_no_tab noTab]
    simp [isLine]
  have cut : Text.cutAt '\n' ([] ++ (line ++ '\n' :: [])) = [line, []] := by
    rw [List.nil_append, Text.cutAt_append _ _ _ whole]
    rfl
  have trimmed : Text.IsTrimmed line := by
    refine ⟨fun c first => ?_, fun c last => ?_⟩
    · obtain rfl : '#' = c := by simpa [isLine] using first
      decide
    · have nonempty : word.toList ≠ [] := fun none => filled (String.toList_eq_nil_iff.mp none)
      rw [isLine, List.getLast?_append_of_ne_nil _ nonempty] at last
      exact visible c (List.mem_of_getLast? last)
  have directive : isDirective line = true := by simp [isLine, isDirective]
  have put : (Printer.putLine page (some ' ') [] [] ⟨output, depth, []⟩ line).output =
      output ++ ("#include " ++ word ++ "\n") := by
    rw [output_putLine_directive page _ _ trimmed directive, wrap_include wide visible]
    simp [Printer.ended, String.ext_iff]
  have written : Printer.write page ⟨output, depth, []⟩ (.plain ("#include " ++ word ++ "\n")) =
      { Printer.putLine page (some ' ') [] [] ⟨output, depth, []⟩ line with buffer := [] } := by
    simp only [Printer.write, Chunk.plain, expanded, cut]
    rfl
  rw [written]
  exact ⟨put, rfl⟩

namespace File

/-- Sorting keeps the names. -/
theorem sorted_perm (names : List String) : (sorted names).Perm names := List.mergeSort_perm ..

/-- Sorted names are in order. -/
theorem sorted_pairwise (names : List String) : (sorted names).Pairwise (· ≤ ·) :=
  List.pairwise_mergeSort' (· ≤ ·) names

/-- Distinct names are sorted into increasing order. -/
theorem sorted_increasing {names : List String} (distinct : names.Nodup) :
    (sorted names).Pairwise (· < ·) :=
  ((sorted_pairwise names).and ((sorted_perm names).nodup_iff.mpr distinct)).imp
    fun both => lt_of_le_of_ne both.1 both.2

/-- The order of names does not matter when they are sorted. -/
theorem sorted_congr {names others : List String} (same : names.Perm others) :
    sorted names = sorted others :=
  ((sorted_perm names).trans (same.trans (sorted_perm others).symm)).eq_of_pairwise'
    (sorted_pairwise names) (sorted_pairwise others)

/-- The texts that include system files and local ones: an empty line if there are any, and a line
for each of them. -/
def includeTexts (system locals : List String) : List String :=
  (if system ++ locals = [] then [] else ["\n"]) ++
    (system.map fun name => "#include <" ++ name ++ ">\n") ++
      locals.map fun name => "#include " ++ name ++ "\n"

/-- Files are included in these texts. -/
theorem includeChunks_eq (includes : List String) : includeChunks includes =
    (includeTexts (sorted (includes.filter fun name => !isLocal name))
      (sorted (includes.filter isLocal))).map Chunk.plain := by
  have parts : (sorted (includes.filter fun name => !isLocal name) ++
      sorted (includes.filter isLocal)).Perm includes :=
    ((sorted_perm _).append (sorted_perm _)).trans
      (List.perm_append_comm.trans (List.filter_append_perm isLocal includes))
  have empty : (sorted (includes.filter fun name => !isLocal name) ++
      sorted (includes.filter isLocal) = []) ↔ includes.isEmpty = true := by
    rw [List.isEmpty_iff, ← List.perm_nil, ← List.perm_nil]
    exact ⟨parts.symm.trans, parts.trans⟩
  simp only [includeChunks, includeTexts, empty, List.map_append, List.map_map, Function.comp_def]
  split <;> rfl

/-- The texts that include visible names are written as they stand on a page that is wide enough. -/
theorem isVerbatim_includeTexts {page : Page} (wide : 20 ≤ page.width) {system locals : List String}
    (visible : ∀ name ∈ system ++ locals, ∀ c ∈ name.toList, Text.isBlank c = false)
    (filled : ∀ name ∈ locals, name ≠ "") :
    ∀ text ∈ includeTexts system locals, IsVerbatim page text := by
  obtain ⟨visibleSystem, visibleLocals⟩ := List.forall_mem_append.mp visible
  intro text member
  simp only [includeTexts, List.mem_append, List.mem_map] at member
  rcases member with (blank | ⟨name, listed, rfl⟩) | ⟨name, listed, rfl⟩
  · obtain rfl : text = "\n" := by
      split at blank
      · cases blank
      · exact List.mem_singleton.mp blank
    exact isVerbatim_blank page
  · have bracketed :
        "#include <" ++ name ++ ">\n" = "#include " ++ ("<" ++ name ++ ">") ++ "\n" := by
      simp [String.ext_iff]
    rw [bracketed]
    refine isVerbatim_include wide (by simp [String.ext_iff]) fun c inside => ?_
    simp only [String.toList_append, List.mem_append] at inside
    rcases inside with (first | own) | last
    · obtain rfl : c = '<' := by simpa using first
      decide
    · exact visibleSystem name listed c own
    · obtain rfl : c = '>' := by simpa using last
      decide
  · exact isVerbatim_include wide (filled name listed) (visibleLocals name listed)

/-- The calls that put a file together and write it. -/
inductive Call where
  | addFiles (files : List String)
  | addElements (elements : List Element)
  | write

/-- The files that a call adds. -/
def Call.files : Call → List String
  | addFiles files => files
  | _ => []

/-- The elements that a call adds. -/
def Call.elements : Call → List Element
  | addElements elements => elements
  | _ => []

/-- The files that calls add. -/
def addedFiles (calls : List Call) : List String := calls.flatMap Call.files

/-- The elements that calls add. -/
def addedElements (calls : List Call) : List Element := calls.flatMap Call.elements

/-- The file that calls make of a file. -/
def assembled (file : File) (calls : List Call) : File :=
  (file.withFiles (addedFiles calls)).addElements (addedElements calls)

/-- A file with what is stored in its place, if there is anything. -/
structure Draft where
  file : File
  held : Option String

/-- What a call makes of a file and of what is stored in its place. -/
def Draft.perform (draft : Draft) : Call → Except Failure Draft
  | .addFiles files => .ok { draft with file := draft.file.withFiles files }
  | .addElements elements => .ok { draft with file := draft.file.addElements elements }
  | .write => do
    let content ← draft.file.write draft.held
    return { draft with held := some content }

/-- What several calls make of it. -/
def Draft.performAll (draft : Draft) (calls : List Call) : Except Failure Draft :=
  calls.foldlM Draft.perform draft

/-- A file that is included: one that is added, or one with a name that an element needs. -/
def IsIncluded (calls : List Call) (name : String) : Prop :=
  name ∈ addedFiles calls ∨ name ≠ "" ∧ ∃ element ∈ addedElements calls, element.Needs name

/-- What was held does not matter to what is written. -/
theorem write_eq (file : File) (held : Option String) : file.write held = file.text := by
  have nothing : (if held.isSome then none else held) = none := by cases held <;> rfl
  rw [write, nothing]
  cases file.text with
  | ok text => exact congrArg Except.ok String.empty_append
  | error failure => rfl

/-- One call before others. -/
theorem assembled_cons (file : File) (call : Call) (rest : List Call) :
    file.assembled (call :: rest) = (file.assembled [call]).assembled rest := by
  simp [assembled, withFiles, addElements, addedFiles, addedElements, Element.withFiles]

/-- Elements that are refused are so with others behind them. -/
theorem elementChunks_append_error {forHeader : Bool} {first : List Element} {failure : Failure}
    (refused : elementChunks forHeader first = .error failure) (second : List Element) :
    elementChunks forHeader (first ++ second) = .error failure := by
  induction first with
  | nil => cases refused
  | cons element rest inductionHypothesis =>
    simp only [List.cons_append, elementChunks, bind_error_iff, pure_not_error, and_false,
      exists_false, or_false] at refused ⊢
    rcases refused with own | ⟨chunks, own, others⟩
    · exact Or.inl own
    · exact Or.inr ⟨chunks, own, inductionHypothesis others⟩

/-- A file that is refused is so when more is added to it. -/
theorem text_assembled_error {file : File} {failure : Failure}
    (refused : file.text = .error failure) (calls : List Call) :
    (file.assembled calls).text = .error failure := by
  simp only [text, bind_error_iff, pure_not_error, and_false, exists_false, or_false] at refused ⊢
  rcases refused with narrow | ⟨page, made, others⟩
  · exact Or.inl narrow
  · exact Or.inr ⟨page, made, elementChunks_append_error others _⟩

/-- A call that adds something makes the file that it makes. -/
theorem Draft.perform_add (draft : Draft) {call : Call} (adds : call ≠ .write) :
    draft.perform call = .ok { draft with file := draft.file.assembled [call] } := by
  cases call with
  | addFiles files =>
    simp [perform, assembled, addedFiles, addedElements, Call.files, Call.elements, addElements,
      withFiles]
  | addElements elements =>
    simp [perform, assembled, addedFiles, addedElements, Call.files, Call.elements, addElements,
      withFiles, Element.withFiles]
  | write => exact absurd rfl adds

/-- Writing adds nothing to a file. -/
@[simp]
theorem assembled_write (file : File) (rest : List Call) :
    file.assembled (.write :: rest) = file.assembled rest := rfl

/-- What is stored once a file has been written is its text. It does not matter what was stored
before, nor whether the file has been written in between. -/
theorem held_performAll (draft : Draft) (calls : List Call) :
    (draft.performAll (calls ++ [Call.write])).map (·.held) =
      (draft.file.assembled calls).text.map some := by
  have written (draft : Draft) : draft.perform .write =
      draft.file.text.map fun content => { draft with held := some content } := by
    rw [Draft.perform, write_eq]
    cases draft.file.text <;> rfl
  induction calls generalizing draft with
  | nil =>
    have same : draft.file.assembled [] = draft.file := by
      simp [assembled, addedFiles, addedElements, withFiles, addElements, Element.withFiles]
    simp only [Draft.performAll, List.nil_append, List.foldlM_cons, List.foldlM_nil, written, same]
    cases draft.file.text <;> rfl
  | cons call rest inductionHypothesis =>
    have first : draft.performAll (call :: rest ++ [Call.write]) = (do
        let next ← draft.perform call
        next.performAll (rest ++ [Call.write])) := rfl
    rw [first]
    by_cases writes : call = .write
    · subst writes
      rw [written, assembled_write]
      cases found : draft.file.text with
      | error failure =>
        rw [text_assembled_error found]
        rfl
      | ok content => exact inductionHypothesis { draft with held := some content }
    · rw [assembled_cons draft.file call rest, draft.perform_add writes]
      exact inductionHypothesis { draft with file := draft.file.assembled [call] }

/-- The chunks in front of those that include files. -/
def headChunks (name : String) (forHeader : Bool) : List Chunk :=
  .plain notice ::
    if forHeader then
      [.plain ("\n#ifndef " ++ guardOf name ++ "\n"), .plain ("#define " ++ guardOf name ++ "\n")]
    else []

/-- The chunks behind those of the elements. -/
def closingChunks (forHeader : Bool) : List Chunk :=
  if forHeader then [.plain "\n#endif\n"] else []

/-- The text of a file with lines that are not too short. -/
theorem text_eq (file : File) (wide : 20 ≤ file.width) : file.text =
    (elementChunks file.forHeader file.elements).map fun body =>
      layOut ⟨file.indent.toNat, file.width.toNat⟩ (headChunks file.name file.forHeader ++
        (includeChunks file.allIncludes ++ (body ++ closingChunks file.forHeader))) := by
  have page : Page.make file.indent file.width =
      .ok ⟨file.indent.toNat, file.width.toNat⟩ := if_neg (by simpa [leastWidth] using wide)
  rw [text, page]
  cases elementChunks file.forHeader file.elements with
  | error failure => rfl
  | ok body =>
    refine congrArg Except.ok (congrArg _ ?_)
    simp [openingChunks, headChunks, closingChunks]

/-- The chunks at the start leave no incomplete line. -/
theorem buffer_headChunks (page : Page) (name : String) (forHeader : Bool) :
    (Printer.start.writeAll page (headChunks name forHeader)).buffer = [] := by
  have ends (front : String) {back : String} (ended : back.toList.getLast? = some '\n') :
      (front ++ back).toList.getLast? = some '\n' := by
    simp [ended]
  refine Printer.buffer_writeAll page fun chunk last => ?_
  cases forHeader with
  | false =>
    obtain rfl : .plain notice = chunk := by simpa [headChunks] using last
    exact ends _ (by decide +kernel)
  | true =>
    obtain rfl : .plain ("#define " ++ guardOf name ++ "\n") = chunk := by
      simpa [headChunks] using last
    exact ends _ (by decide)

section Named

variable {name : String} {forHeader : Bool} {indent width : Int} {calls : List Call}

/-- The files of a file are those that are included. -/
theorem mem_allIncludes {file : String} :
    file ∈ ((named name forHeader indent width).assembled calls).allIncludes ↔
      IsIncluded calls file := by
  simp only [allIncludes, assembled, named, withFiles, addElements, IsIncluded, List.nil_append,
    Element.mem_withFiles, List.mem_filter, List.mem_flatMap, Element.mem_includes, bne_iff_ne,
    List.not_mem_nil, false_or]
  exact or_congr_right and_comm

/-- Each file is included once. -/
theorem nodup_allIncludes :
    ((named name forHeader indent width).assembled calls).allIncludes.Nodup :=
  Element.nodup_withFiles (Element.nodup_withFiles List.nodup_nil _) _

/-- The order of files does not matter to the chunks that include them. -/
theorem includeChunks_congr {includes others : List String} (same : includes.Perm others) :
    includeChunks includes = includeChunks others := by
  rw [includeChunks_eq, includeChunks_eq, sorted_congr (same.filter _),
    sorted_congr (same.filter isLocal)]

/-- Only the set of the files that are added matters to the text. -/
theorem text_congr (wide : 20 ≤ width) {others : List Call}
    (elements : addedElements others = addedElements calls)
    (files : ∀ file, file ∈ addedFiles others ↔ file ∈ addedFiles calls) :
    ((named name forHeader indent width).assembled others).text =
      ((named name forHeader indent width).assembled calls).text := by
  have same : ((named name forHeader indent width).assembled others).allIncludes.Perm
      ((named name forHeader indent width).assembled calls).allIncludes := by
    refine (List.perm_ext_iff_of_nodup nodup_allIncludes nodup_allIncludes).mpr fun file => ?_
    rw [mem_allIncludes, mem_allIncludes, IsIncluded, IsIncluded, elements, files]
  rw [text_eq _ wide, text_eq _ wide, includeChunks_congr same]
  simp only [assembled, elements]
  rfl

end Named

/-- A text with the lines that include files in it. -/
theorem layOut_includes {page : Page} (wide : 20 ≤ page.width) (name : String) (forHeader : Bool)
    {includes : List String}
    (visible : ∀ file ∈ includes, ∀ c ∈ file.toList, Text.isBlank c = false) :
    ∃ depth, ∀ back, layOut page (headChunks name forHeader ++ (includeChunks includes ++ back)) =
      layOut page (headChunks name forHeader) ++
        String.join (includeTexts (sorted (includes.filter fun name => !isLocal name))
          (sorted (includes.filter isLocal))) ++ layOutFrom page depth back := by
  have listed : ∀ file ∈ sorted (includes.filter fun name => !isLocal name) ++
      sorted (includes.filter isLocal), file ∈ includes := fun file member =>
    (List.mem_append.mp member).elim
      (fun system => List.mem_of_mem_filter ((sorted_perm _).mem_iff.mp system))
      (fun own => List.mem_of_mem_filter ((sorted_perm _).mem_iff.mp own))
  have filled : ∀ file ∈ sorted (includes.filter isLocal), file ≠ "" := by
    rintro file member rfl
    exact absurd (List.mem_filter.mp ((sorted_perm _).mem_iff.mp member)).2 (by decide)
  have verbatim := isVerbatim_includeTexts wide
    (fun file member => visible file (listed file member)) filled
  obtain ⟨start, headed⟩ := layOutFrom_append page 0 (buffer_headChunks page name forHeader)
  obtain ⟨joined, empty⟩ := layOutFrom_verbatim verbatim start
  obtain ⟨depth, included⟩ := layOutFrom_append page start empty
  refine ⟨depth, fun back => ?_⟩
  have parts := headed (includeChunks includes ++ back)
  rw [includeChunks_eq, included, joined, ← String.append_assoc] at parts
  rw [includeChunks_eq]
  exact parts

/-- A file is the text in front, a line for each file that is included, and what the elements give:
system files stand in angle brackets and before local ones, each part in increasing order. Writing
the file stores this text whatever was stored before and however often it has been written, and only
the set of the files that are added matters to it. -/
theorem includes_written (name : String) (forHeader : Bool) (indent : Int) {width : Int}
    (wide : 20 ≤ width) {calls : List Call}
    (visible : ∀ file, IsIncluded calls file → ∀ c ∈ file.toList, Text.isBlank c = false) :
    (∃ system locals depth,
      ((named name forHeader indent width).assembled calls).text =
        (elementChunks forHeader (addedElements calls)).map (fun body =>
          layOut ⟨indent.toNat, width.toNat⟩ (headChunks name forHeader) ++
            String.join (includeTexts system locals) ++
              layOutFrom ⟨indent.toNat, width.toNat⟩ depth (body ++ closingChunks forHeader)) ∧
      system.Pairwise (· < ·) ∧ locals.Pairwise (· < ·) ∧
      (∀ file, file ∈ system ↔ IsIncluded calls file ∧ isLocal file = false) ∧
      ∀ file, file ∈ locals ↔ IsIncluded calls file ∧ isLocal file = true) ∧
    (∀ held, ((⟨named name forHeader indent width, held⟩ : Draft).performAll
        (calls ++ [Call.write])).map (·.held) =
      ((named name forHeader indent width).assembled calls).text.map some) ∧
    ∀ others, addedElements others = addedElements calls →
      (∀ file, file ∈ addedFiles others ↔ file ∈ addedFiles calls) →
      ((named name forHeader indent width).assembled others).text =
        ((named name forHeader indent width).assembled calls).text := by
  refine ⟨?_, fun held => held_performAll _ calls, fun others => text_congr wide⟩
  set file := (named name forHeader indent width).assembled calls with isFile
  have page : 20 ≤ (⟨indent.toNat, width.toNat⟩ : Page).width := by
    dsimp only
    omega
  obtain ⟨depth, laid⟩ := layOut_includes page name forHeader
    (fun included member => visible included (mem_allIncludes.mp member))
  have distinct (keep : String → Bool) : (file.allIncludes.filter keep).Nodup :=
    nodup_allIncludes.filter keep
  have member (keep : String → Bool) (included : String) :
      included ∈ sorted (file.allIncludes.filter keep) ↔
        IsIncluded calls included ∧ keep included = true := by
    rw [(sorted_perm _).mem_iff, List.mem_filter, mem_allIncludes]
  refine ⟨_, _, depth, ?_, sorted_increasing (distinct fun name => !isLocal name),
    sorted_increasing (distinct isLocal), fun included => ?_, member isLocal⟩
  · rw [text_eq file wide]
    exact congrArg (Except.map · _) (funext fun body => laid _)
  · rw [member, Bool.not_eq_true']

/-- An implementation file with a function. The type of its parameter is in a local file, the body
and the result need system files. -/
def operandFile : File := named "Operand.c" false 2 80

/-- The file is put together and written in between. One file is added twice. -/
def operandCalls : List Call :=
  [.addFiles ["stdio.h"],
   .addElements [.function .none "operandWidth" ⟨"size_t", ["stddef.h"], false, 0⟩
     [.parameter ⟨"operand", ⟨"Operand", ["\"Operand.h\""], true, 1⟩⟩]
     (.code "assert(operand);\nreturn operand->width;\n" ["assert.h"] []) false false],
   .write, .addFiles ["\"Operand.h\"", "stdio.h"]]

/-- The file has one line for each of the four files, also if they are added in another order. -/
theorem includes_written_onceEach : ∃ front back content,
    content = front ++ String.join (includeTexts ["assert.h", "stddef.h", "stdio.h"]
      ["\"Operand.h\""]) ++ back ∧
    ((⟨operandFile, some "int main;\n"⟩ : Draft).performAll
      (operandCalls ++ [Call.write])).map (·.held) = .ok (some content) ∧
    (operandFile.assembled (.addFiles ["\"Operand.h\""] :: operandCalls)).text = .ok content := by
  have visible : ∀ file, IsIncluded operandCalls file →
      ∀ c ∈ file.toList, Text.isBlank c = false := by
    have listed : ((operandFile.assembled operandCalls).allIncludes.all fun file =>
        file.toList.all (!Text.isBlank ·)) = true := by
      decide +kernel
    simp only [List.all_eq_true, Bool.not_eq_true'] at listed
    exact fun file included => listed file (mem_allIncludes.mpr included)
  have wide : (20 : Int) ≤ 80 := by decide
  obtain ⟨⟨system, locals, depth, laid, systemOrdered, localsOrdered, inSystem, inLocals⟩, stored,
    reordered⟩ := includes_written "Operand.c" false 2 wide visible
  have four (file : String) : IsIncluded operandCalls file ↔
      file ∈ ["stdio.h", "\"Operand.h\"", "stddef.h", "assert.h"] := by
    have listed : (operandFile.assembled operandCalls).allIncludes =
        ["stdio.h", "\"Operand.h\"", "stddef.h", "assert.h"] := by
      decide +kernel
    rw [← listed]
    exact mem_allIncludes.symm
  have systemIs : system = ["assert.h", "stddef.h", "stdio.h"] := by
    refine systemOrdered.eq_of_mem_iff (by decide +kernel) fun file => ?_
    have kept : (["stdio.h", "\"Operand.h\"", "stddef.h", "assert.h"].filter
        fun name => !isLocal name).Perm ["assert.h", "stddef.h", "stdio.h"] := by
      decide +kernel
    rw [inSystem, four, ← kept.mem_iff, List.mem_filter, Bool.not_eq_true']
  have localsAre : locals = ["\"Operand.h\""] := by
    refine localsOrdered.eq_of_mem_iff (List.pairwise_singleton ..) fun file => ?_
    have kept : ["stdio.h", "\"Operand.h\"", "stddef.h", "assert.h"].filter isLocal =
        ["\"Operand.h\""] := by
      decide +kernel
    rw [inLocals, four, ← kept, List.mem_filter]
  obtain ⟨body, made, -⟩ : ∃ body, elementChunks false (addedElements operandCalls) = .ok body ∧
      (!body.isEmpty) = true :=
    exists_ok (by decide +kernel)
  rw [made] at laid
  refine ⟨_, _, _, by rw [systemIs, localsAre], (stored _).trans (congrArg _ laid),
    (reordered (.addFiles ["\"Operand.h\""] :: operandCalls) rfl fun file => ?_).trans laid⟩
  have again : addedFiles (.addFiles ["\"Operand.h\""] :: operandCalls) =
      "\"Operand.h\"" :: addedFiles operandCalls := rfl
  have known : "\"Operand.h\"" ∈ addedFiles operandCalls := by decide +kernel
  rw [again, List.mem_cons, or_iff_right_of_imp fun same => same ▸ known]

end File

end EncoderTables.Code
