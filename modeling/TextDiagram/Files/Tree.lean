import TextDiagram.Failure
import TextDiagram.Files.Path

/-!
# File trees

A run sees files and directories below a working directory. Paths that lead out of the working
directory lead to a place where at first there is nothing.
-/

namespace TextDiagram.Files

/-- A file holds a text, or else bytes that are no text. -/
inductive Content where
  | text (s : String)
  | binary (bytes : ByteArray)

def Content.ofBytes (bytes : ByteArray) : Content :=
  match String.fromUTF8? bytes with
  | some s => .text s
  | none => .binary bytes

inductive Entry where
  | file (content : Content)
  | directory

/-- A place is given by the names that lead to it from the working directory. -/
abbrev Place := List String

structure Tree where
  entries : List (Place × Entry)

namespace Tree

def empty : Tree := ⟨[]⟩

/-- The place above a place. Above the working directory one is outside and stays there. -/
def above : Place → Place
  | [] => [".."]
  | [".."] => [".."]
  | place => place.dropLast

/-- What is at a place. Wherever there is something, there are directories on the way to it. -/
def at? (t : Tree) (place : Place) : Option Entry :=
  match t.entries.find? fun e => e.1 == place with
  | some e => some e.2
  | none =>
    if place.isEmpty || place == [".."] || t.entries.any (fun e => place.isPrefixOf e.1) then
      some .directory
    else none

/-- Follows names from a place. Every place that is left has to be a directory. -/
def follow (t : Tree) (place : Place) : List String → Except FileError Place
  | [] => .ok place
  | name :: names =>
    match t.at? place with
    | none => .error .notFound
    | some (.file _) => .error .notADirectory
    | some .directory =>
      if name = "." then t.follow place names
      else if name = ".." then t.follow (above place) names
      else t.follow (place ++ [name]) names

/-- The steps along a path, single points included. -/
def givenNames (path : String) : List String :=
  (segments path).map String.ofList

/-- The steps to what a path names. A slash at the end asks for a directory, just as a point
would. -/
def names (path : String) : List String :=
  if endsInSlash path then givenNames path ++ ["."] else givenNames path

def start (path : String) : Place :=
  if startsInSlash path then [".."] else []

def find (t : Tree) (path : String) : Except FileError Place :=
  if path.isEmpty then .error .notFound else t.follow (start path) (names path)

/-- What comes of reading what is at a place. -/
def readEntry : Option Entry → Except FileError String
  | none => .error .notFound
  | some .directory => .error .isADirectory
  | some (.file (.text s)) => .ok s
  | some (.file (.binary _)) => .error .notText

def read (t : Tree) (path : String) : Except FileError String :=
  (t.find path).bind fun place => readEntry (t.at? place)

def isFile (t : Tree) (path : String) : Bool :=
  match t.find path with
  | .error _ => false
  | .ok place => match t.at? place with
    | some (.file _) => true
    | _ => false

/-- Puts a file at a place, in place of what is there. -/
def set (t : Tree) (place : Place) (content : Content) : Tree :=
  ⟨t.entries.filter (fun e => e.1 != place) ++ [(place, .file content)]⟩

/-- The place at which a file may be written, which has to lie in a directory. No file has a slash
at the end of its path. -/
def target (t : Tree) (path : String) : Except FileError Place :=
  if path.isEmpty then .error .notFound
  else
    let names := givenNames path
    (t.follow (start path) names.dropLast).bind fun directory =>
      match t.at? directory with
      | none => .error .notFound
      | some (.file _) => .error .notADirectory
      | some .directory =>
        if endsInSlash path then .error .isADirectory
        else t.follow directory names.getLast?.toList

/-- Writes a file, which may be new. -/
def write (t : Tree) (path text : String) : Except FileError Tree :=
  (t.target path).bind fun place =>
    match t.at? place with
    | some .directory => .error .isADirectory
    | _ => .ok (t.set place (.text text))

end Tree

/-- What can be seen of the files: what comes of reading them. -/
structure View where
  read : String → Except FileError String

/-- There is a file at a path if it can be read, or cannot be read for other reasons than that
there is none. -/
def View.isFile (v : View) (path : String) : Bool :=
  match v.read path with
  | .error .notFound | .error .notADirectory | .error .isADirectory => false
  | _ => true

namespace Tree

def view (t : Tree) : View := ⟨t.read⟩

end Tree

end TextDiagram.Files
