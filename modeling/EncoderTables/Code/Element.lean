import EncoderTables.Code.Type
import EncoderTables.Code.Printer
import EncoderTables.Scalar

/-!
# Elements of generated code

The declarations and definitions that generated files consist of. Each element has a
declaration, for headers, and an implementation; both are chunks for a printer. Not every
element has both. An element also has a text of its own and the files it needs.
-/

namespace EncoderTables.Code

/-- The comment in front of an element: a brief line and further detail. An empty brief
line means that there is no comment. -/
structure Comment where
  brief : String
  detail : String
  deriving DecidableEq, Repr

namespace Comment

/-- No comment. -/
def none : Comment := ⟨"", ""⟩

/-- The chunks of a comment. -/
def chunks (comment : Comment) : List Chunk :=
  if comment.brief = "" then []
  else if comment.detail = "" then [.plain ("/* " ++ comment.brief ++ " */\n")]
  else
    [.plain "/**\n* @brief ", .comment "*        " (comment.brief ++ "\n"),
     .comment "* " ("*\n" ++ comment.detail ++ "\n"), .plain "*/\n"]

end Comment

/-- A parameter of a function. -/
structure Parameter where
  name : String
  type : TypeRef
  deriving DecidableEq, Repr

/-- The text of a parameter. -/
def Parameter.text (parameter : Parameter) : String := parameter.type.declare parameter.name

/-- A table or other variable. Private variables exist in implementations only. -/
structure Variable where
  comment : Comment
  name : String
  type : TypeRef
  isPrivate : Bool
  value : String
  dimensions : List Scalar
  deriving DecidableEq, Repr

namespace Variable

/-- A name with its type and its dimensions. -/
def declarator (declared : Variable) : String :=
  declared.type.declare declared.name ++
    String.join (declared.dimensions.map fun size => "[" ++ size.plain ++ "]")

/-- The initializer, if there is one. -/
def initializer (declared : Variable) : List String :=
  if declared.value = "" then [] else [" = " ++ declared.value]

/-- The parts of a definition. -/
def parts (declared : Variable) : List String :=
  (if declared.isPrivate then ["static "] else []) ++ [declared.declarator] ++
    declared.initializer ++ [";\n"]

/-- The declaration of a variable that is not private. -/
def declaration (declared : Variable) : List Chunk :=
  if declared.isPrivate then []
  else declared.comment.chunks ++ [.plain ("extern " ++ declared.declarator ++ ";\n")]

/-- The definition of a variable. -/
def implementation (declared : Variable) : List Chunk :=
  declared.comment.chunks ++ declared.parts.map Chunk.plain

/-- The definition without its comment. -/
def text (declared : Variable) : String := String.join declared.parts

end Variable

/-- An enumeration type with its enumerators; an enumerator of empty value has none. -/
structure Enumeration where
  comment : Comment
  name : String
  values : List (String × Scalar)
  isTypedef : Bool
  deriving DecidableEq, Repr

namespace Enumeration

/-- Give an enumerator a value; a name that is there already keeps its place. -/
def setValue (name : String) (value : Scalar) : List (String × Scalar) → List (String × Scalar)
  | [] => [(name, value)]
  | (first, old) :: rest =>
    if first = name then (first, value) :: rest else (first, old) :: setValue name value rest

/-- Add an enumerator. -/
def withValue (enumeration : Enumeration) (name : String) (value : Scalar) : Enumeration :=
  { enumeration with values := setValue name value enumeration.values }

/-- An enumeration of a list of enumerators, of which later ones replace earlier ones. -/
def ofValues (comment : Comment) (name : String) (values : List (String × Scalar))
    (isTypedef : Bool) : Enumeration :=
  values.foldl (fun enumeration entry => enumeration.withValue entry.1 entry.2)
    ⟨comment, name, [], isTypedef⟩

/-- The text of an enumerator. -/
def enumerator (entry : String × Scalar) : String :=
  if entry.2 = .text "" then entry.1 else entry.1 ++ " = " ++ entry.2.plain

/-- The declaration of an enumeration, which must not be empty. -/
def declaration (enumeration : Enumeration) : Except Failure (List Chunk) :=
  if enumeration.values.isEmpty then refuse (.emptyEnumDeclaration enumeration.name)
  else
    let body := ",\n".intercalate (enumeration.values.map enumerator)
    let text :=
      if enumeration.isTypedef then
        "typedef enum \x7b\n" ++ body ++ "\n\x7d " ++ enumeration.name ++ ";\n"
      else
        "enum " ++ enumeration.name ++ " \x7b\n" ++ body ++ "\n\x7d; // enum " ++
          enumeration.name ++ "\n"
    .ok (enumeration.comment.chunks ++ [.plain text])

end Enumeration

/-- A field of a packed structure. -/
structure Field where
  name : String
  type : TypeRef
  width : Scalar
  deriving DecidableEq, Repr

/-- The text of a field. -/
def Field.text (field : Field) : String :=
  field.type.text ++ " " ++ field.name ++ " : " ++ field.width.plain ++ ";\n"

/-- A declaration or definition of generated code. -/
inductive Element where
  | type (type : TypeRef)
  | parameter (parameter : Parameter)
  | value (value : Variable)
  | enumeration (enumeration : Enumeration)
  | field (field : Field)
  /-- A function. Private functions exist in implementations only, inline functions
  have their body in the declaration. -/
  | function (comment : Comment) (name : String) (result : TypeRef)
      (parameters : List Element) (body : Element) (isPrivate isInline : Bool)
  /-- A union inside a structure, which a macro may pack. -/
  | union (comment : Comment) (name : String) (members : List Element) (packing : String)
  /-- A structure of fields and of unions of fields. -/
  | record (comment : Comment) (name : String) (members : List Element) (isTypedef : Bool)
  /-- Code as it stands, behind the definitions of its variables. -/
  | code (text : String) (includes : List String) (locals : List Element)
  deriving Inhabited

namespace Element

/-- Code without variables that needs no files. -/
def plain (text : String) : Element := .code text [] []

/-- The chunks of a function: its prototype alone, or its prototype and its body. -/
def functionChunks (comment : Comment) (name prototype : String)
    (body : Except Failure (List Chunk)) : (withBody : Bool) → Except Failure (List Chunk)
  | false => .ok (comment.chunks ++ [.list (prototype ++ ";\n")])
  | true => do
    return comment.chunks ++ [.list (prototype ++ " \x7b\n")] ++ (← body) ++
      [.plain ("\x7d // " ++ name ++ "()\n")]

/-- What a function is declared as, given the texts of its parameters. -/
def prototype (name : String) (result : TypeRef) (isPrivate isInline : Bool)
    (parameters : List String) : String :=
  (if isPrivate then "static " else "") ++ (if isInline then "inline " else "") ++
    result.declare (name ++ "(" ++ ", ".intercalate parameters ++ ")")

/-- The chunks of a union, which must have members. -/
def unionChunks (name : String) (isEmpty : Bool) (packing : String)
    (members : Except Failure (List Chunk)) : Except Failure (List Chunk) := do
  if isEmpty then refuse .emptyUnion
  let opening := "union " ++ (if name = "" then "" else name ++ " ") ++ "\x7b\n"
  if packing = "" then
    return [.plain opening] ++ (← members) ++ [.plain "\x7d;\n"]
  else
    return [.plain (packing ++ "(" ++ opening)] ++ (← members) ++ [.plain "\x7d);\n"]

/-- The chunks of a structure, which must have members. -/
def recordChunks (comment : Comment) (name : String) (isEmpty isTypedef : Bool)
    (members : Except Failure (List Chunk)) : Except Failure (List Chunk) := do
  if isEmpty then refuse (.emptyRecord name)
  if isTypedef then
    return comment.chunks ++ [.plain "typedef struct \x7b\n"] ++ (← members) ++
      [.plain ("\x7d " ++ name ++ ";\n")]
  else
    return comment.chunks ++ [.plain ("struct " ++ name ++ " \x7b\n")] ++ (← members) ++
      [.plain "\x7d;\n"]

/-- The chunks of code behind those of its variables. -/
def codeChunks (text : String) (hasLocals : Bool) (locals : List Chunk) : List Chunk :=
  locals ++
    (if text = "" then []
     else
      (if hasLocals then [.plain "\n"] else []) ++ [.plain text] ++
        (if text.toList.getLast? = some '\n' then [] else [.plain "\n"]))

mutual

/-- The declaration or the implementation of an element. -/
def chunks (declaring : Bool) : Element → Except Failure (List Chunk)
  | .type shape => if declaring then .ok [.plain shape.text] else refuse .formMissing
  | .parameter declared => .ok [.plain declared.text]
  | .value declared => .ok (if declaring then declared.declaration else declared.implementation)
  | .enumeration listed => if declaring then listed.declaration else .ok []
  | .field declared => if declaring then refuse .formMissing else .ok [.plain declared.text]
  | .function comment name result parameters body isPrivate isInline =>
    if isInline && !declaring then .ok []
    else do
      let proto := prototype name result isPrivate isInline (← texts parameters)
      functionChunks comment name proto (chunks false body) (isInline || !declaring)
  | .union comment name members packing => do
    let inner ← unionChunks name members.isEmpty packing (implementations members)
    return (if declaring then comment.chunks else []) ++ inner
  | .record comment name members isTypedef =>
    if declaring then
      recordChunks comment name members.isEmpty isTypedef (implementations members)
    else .ok []
  | .code text _ locals => do
    return codeChunks text (!locals.isEmpty) (← implementations locals)

/-- The implementations of several elements. -/
def implementations : List Element → Except Failure (List Chunk)
  | [] => .ok []
  | element :: rest => do
    let first ← chunks false element
    return first ++ (← implementations rest)

/-- The text of an element. Elements without a text of their own are shown by their
declaration, without layout. -/
def text : Element → Except Failure String
  | .type shape => .ok shape.text
  | .parameter declared => .ok declared.text
  | .value declared => .ok declared.text
  | .enumeration listed => listed.declaration.map Chunk.join
  | .field _ => refuse .formMissing
  | .function comment name result parameters body isPrivate isInline => do
    let proto := prototype name result isPrivate isInline (← texts parameters)
    (functionChunks comment name proto (chunks false body) isInline).map Chunk.join
  | .union comment name members packing => do
    let inner ← unionChunks name members.isEmpty packing (implementations members)
    return Chunk.join (comment.chunks ++ inner)
  | .record comment name members isTypedef =>
    (recordChunks comment name members.isEmpty isTypedef (implementations members)).map Chunk.join
  | .code text _ _ => .ok text

/-- The texts of several elements. -/
def texts : List Element → Except Failure (List String)
  | [] => .ok []
  | element :: rest => do
    let first ← text element
    return first :: (← texts rest)

end

/-- What an element is in a header. -/
def declaration (element : Element) : Except Failure (List Chunk) := chunks true element

/-- What an element is in an implementation file. -/
def implementation (element : Element) : Except Failure (List Chunk) := chunks false element

/-- Add a file to a list of files, unless it is there already. -/
def withFile (includes : List String) (file : String) : List String :=
  if includes.contains file then includes else includes ++ [file]

/-- Add several files to a list of files. -/
def withFiles (includes files : List String) : List String := files.foldl withFile includes

mutual

/-- The files that an element needs. -/
def includes : Element → List String
  | .type shape => shape.includes
  | .parameter declared => declared.type.includes
  | .value declared => declared.type.includes
  | .enumeration _ => []
  | .field declared => declared.type.includes
  | .function _ _ result parameters body _ _ =>
    withFiles (withFiles result.includes (includesOfAll parameters)) (includes body)
  | .union _ _ members _ => withFiles [] (includesOfAll members)
  | .record _ _ members _ => withFiles [] (includesOfAll members)
  | .code _ files _ => files

/-- The files that several elements need, with repetitions. -/
def includesOfAll : List Element → List String
  | [] => []
  | element :: rest => includes element ++ includesOfAll rest

end

/-- The name of an element; code has none. -/
def name? : Element → Option String
  | .type shape => some shape.name
  | .parameter declared => some declared.name
  | .value declared => some declared.name
  | .enumeration listed => some listed.name
  | .field declared => some declared.name
  | .function _ name _ _ _ _ _ => some name
  | .union _ name _ _ => some name
  | .record _ name _ _ => some name
  | .code .. => none

/-- Refuse a variable whose name one of the others has. -/
def checkName (declared : Element) : List Element → Except Failure Unit
  | [] => .ok ()
  | first :: rest =>
    match first.name?, declared.name? with
    | some a, some b =>
      if a = b then refuse (.duplicateVariable b) else checkName declared rest
    | _, _ => refuse .formMissing

/-- Add a variable to code, with the files that it needs. Other elements have none. -/
def addLocal (element declared : Element) : Except Failure Element :=
  match element with
  | .code text files locals => do
    checkName declared locals
    return .code text (withFiles files declared.includes) (locals ++ [declared])
  | _ => refuse .formMissing

/-- Put a comment in front of an element of a kind that shows one. -/
def withComment (comment : Comment) : Element → Element
  | .value declared => .value { declared with comment := comment }
  | .enumeration listed => .enumeration { listed with comment := comment }
  | .function _ name result parameters body isPrivate isInline =>
    .function comment name result parameters body isPrivate isInline
  | .union _ name members packing => .union comment name members packing
  | .record _ name members isTypedef => .record comment name members isTypedef
  | element => element

end Element

/-- The chunks of elements, one after the other. -/
def chunksOf (implementing : Bool) : List Element → Except Failure (List Chunk)
  | [] => .ok []
  | element :: rest => do
    let first ← element.chunks !implementing
    return first ++ (← chunksOf implementing rest)

/-- The text of elements laid out on a page of given dimensions. -/
def render (elements : List Element) (indent width : Int) (implementing : Bool) :
    Except Failure String := do
  let page ← Page.make indent width
  return layOut page (← chunksOf implementing elements)

end EncoderTables.Code
