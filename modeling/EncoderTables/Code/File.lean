import EncoderTables.Code.Element
import EncoderTables.Text.Upper

/-!
# Generated files

A generated file starts with a licence notice and the files it includes, system files
before local ones, each part in order. Headers hold the declarations of their elements
between guards, implementation files the implementations.
-/

namespace EncoderTables.Code

/-- A file to be generated. -/
structure File where
  name : String
  forHeader : Bool
  indent : Int
  width : Int
  includes : List String
  elements : List Element

namespace File

/-- The notice at the start of each file. -/
def notice : String :=
  "// This file was generated by ISAGEN and is part of ISAGEN.\n" ++
  "//\n" ++
  "// ISAGEN is free software; you can redistribute it and/or modify\n" ++
  "// it under the terms of the GNU Lesser General Public License as\n" ++
  "// published by the Free Software Foundation; either version 3 of the\n" ++
  "// License, or (at your option) any later version.\n"

/-- An empty file. -/
def named (name : String) (forHeader : Bool) (indent width : Int) : File :=
  ⟨name, forHeader, indent, width, [], []⟩

/-- Include further files, each once. -/
def withFiles (file : File) (files : List String) : File :=
  { file with includes := Element.withFiles file.includes files }

/-- Add elements at the end. -/
def addElements (file : File) (elements : List Element) : File :=
  { file with elements := file.elements ++ elements }

/-- A letter or digit of the ASCII set. -/
def isGuardChar (c : Char) : Bool :=
  ('A' ≤ c && c ≤ 'Z') || ('a' ≤ c && c ≤ 'z') || ('0' ≤ c && c ≤ '9')

/-- The last part of a path. -/
def baseName (path : List Char) : List Char := (path.reverse.takeWhile (· != '/')).reverse

/-- The name of a guard: the name of the file in upper case, with an underscore in the
place of each other character. -/
def guardOf (name : String) : String :=
  Text.upper (String.ofList ((baseName name.toList).map fun c => if isGuardChar c then c else '_'))

/-- All files to be included: those of the file itself, then those its elements need. -/
def allIncludes (file : File) : List String :=
  Element.withFiles file.includes
    ((file.elements.flatMap Element.includes).filter (· != ""))

/-- Local files are given in quotes. -/
def isLocal (name : String) : Bool := name.toList.head? == some '"'

/-- Strings in increasing order. -/
def sorted (names : List String) : List String := names.mergeSort (fun a b => decide (a ≤ b))

/-- The lines that include files. -/
def includeChunks (includes : List String) : List Chunk :=
  let system := (sorted (includes.filter fun name => !isLocal name)).map fun name =>
    Chunk.plain ("#include <" ++ name ++ ">\n")
  let locals := (sorted (includes.filter isLocal)).map fun name =>
    Chunk.plain ("#include " ++ name ++ "\n")
  (if includes.isEmpty then [] else [.plain "\n"]) ++ system ++ locals

/-- The chunks in front of the elements. -/
def openingChunks (file : File) : List Chunk :=
  [.plain notice] ++
    (if file.forHeader then
      [.plain ("\n#ifndef " ++ guardOf file.name ++ "\n"),
       .plain ("#define " ++ guardOf file.name ++ "\n")]
     else []) ++ includeChunks file.allIncludes

/-- The chunks of elements, each behind an empty line. -/
def elementChunks (forHeader : Bool) : List Element → Except Failure (List Chunk)
  | [] => .ok []
  | element :: rest => do
    let first ← element.chunks forHeader
    return .plain "\n" :: first ++ (← elementChunks forHeader rest)

/-- The text of a file; its lines must not be too short. -/
def text (file : File) : Except Failure String := do
  let page ← Page.make file.indent file.width
  let body ← elementChunks file.forHeader file.elements
  let closing := if file.forHeader then [Chunk.plain "\n#endif\n"] else []
  return layOut page (file.openingChunks ++ body ++ closing)

/-- What a file holds once it is written, given what it held before, if it was there. A file
that is there is removed first; the text is appended to what is left. -/
def write (file : File) (held : Option String) : Except Failure String := do
  let left := if held.isSome then none else held
  return left.getD "" ++ (← file.text)

end File

end EncoderTables.Code
