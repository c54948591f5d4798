import SchemaBinding.Files.Fault
import SchemaBinding.Files.Path

/-!
# File trees

A file tree holds files and directories at locations, and a path leads to a
location by way of its segments.  Every segment asks for a directory to be
taken in, so a path with a trailing slash leads to directories alone.  What a
path leads to need not be there when something is made: then all segments but
the last one have to lead to a directory.

The tree has no links, so going up from a location drops its last name.  Names
and paths have a limited number of bytes.  The one of a path is looked at
before its way is taken, the one of a name where the name is sought or made.
-/

namespace SchemaBinding.Files

/-- The names that lead from the root to a file or directory. -/
abbrev Location := List String

inductive Entry where
  | file (bytes : ByteArray)
  | directory
deriving Inhabited

def Entry.isDirectory : Entry → Bool
  | .file _ => false
  | .directory => true

/-- Files and directories, seen from a working directory. -/
structure Tree where
  /-- What there is beside the root. -/
  entries : List (Location × Entry) := []
  here : Location := []
deriving Inhabited

namespace Tree

/-- What stands at a location; the root is always there. -/
def entry? (tree : Tree) (location : Location) : Option Entry :=
  if location = [] then some .directory else tree.entries.lookup location

def assign (location : Location) (entry : Entry) :
    List (Location × Entry) → List (Location × Entry)
  | [] => [(location, entry)]
  | old :: rest =>
    if old.1 = location then (location, entry) :: rest else old :: assign location entry rest

def set (tree : Tree) (location : Location) (entry : Entry) : Tree :=
  { tree with entries := assign location entry tree.entries }

/-- The tree without a location and all below it. -/
def erase (tree : Tree) (location : Location) : Tree :=
  { tree with entries := tree.entries.filter fun entry => !location.isPrefixOf entry.1 }

/-- The largest number of bytes in the name of an entry. -/
def nameLimit : Nat := 255

/-- The number of bytes that a path stays below. -/
def pathLimit : Nat := 4096

def isTooLong (name : String) : Bool :=
  nameLimit < name.utf8ByteSize

/-- Takes a segment from a location, which has to be a directory. -/
def enter (tree : Tree) (place : Location) (segment : String) : Except Fault Location :=
  match tree.entry? place with
  | none => .error .notFound
  | some (.file _) => .error .notDirectory
  | some .directory =>
    if segment = "" ∨ segment = "." then .ok place
    else if segment = ".." then .ok place.dropLast
    else if isTooLong segment then .error .nameTooLong
    else if (tree.entry? (place ++ [segment])).isSome then .ok (place ++ [segment])
    else .error .notFound

def walk (tree : Tree) (place : Location) (segments : List String) : Except Fault Location :=
  segments.foldlM tree.enter place

def start (tree : Tree) (path : Path) : Location :=
  if path.isAbsolute then [] else tree.here

/-- What is wrong with a path in every tree. -/
def pathFault? (path : Path) : Option Fault :=
  if path.hasNul then some .invalidName
  else if path.text = "" then some .notFound
  else if pathLimit ≤ path.text.utf8ByteSize then some .nameTooLong
  else none

def locate (tree : Tree) (path : Path) : Except Fault Location :=
  match pathFault? path with
  | some fault => .error fault
  | none => tree.walk (tree.start path) path.segments

def isPresent (tree : Tree) (path : Path) : Bool :=
  (tree.locate path).isOk

def isDirectory (tree : Tree) (path : Path) : Bool :=
  match tree.locate path with
  | .ok location => (tree.entry? location).any Entry.isDirectory
  | .error _ => false

def readText (tree : Tree) (path : Path) : Except Fault String := do
  match tree.entry? (← tree.locate path) with
  | some (.file bytes) =>
    match String.fromUTF8? bytes with
    | some text => return text
    | none => throw .notText
  | _ => throw .isDirectory

/-- The location that an entry made at a path would have; none if the path does not end in
a name. -/
def slot? (tree : Tree) (path : Path) : Except Fault (Option Location) :=
  match pathFault? path with
  | some fault => .error fault
  | none =>
    match path.segments.reverse.dropWhile (· = "") with
    | [] => .ok none
    | last :: front => do
      let place ← tree.walk (tree.start path) front.reverse
      let directory ← tree.enter place ""
      return if last = "." ∨ last = ".." then none else some (directory ++ [last])

/-- A location whose last name no entry can have. -/
def isUnnameable (location : Location) : Bool :=
  location.getLast?.any isTooLong

def write (tree : Tree) (path : Path) (bytes : ByteArray) : Except Fault Tree := do
  match ← tree.slot? path with
  | none => throw .isDirectory
  | some location =>
    if path.endsInSlash || (tree.entry? location).any Entry.isDirectory then
      throw .isDirectory
    else if isUnnameable location then throw .nameTooLong
    else return tree.set location (.file bytes)

def makeDirectory (tree : Tree) (path : Path) : Except Fault Tree := do
  match ← tree.slot? path with
  | none => throw .alreadyThere
  | some location =>
    if isUnnameable location then throw .nameTooLong
    else if (tree.entry? location).isSome then throw .alreadyThere
    else return tree.set location .directory

end Tree

end SchemaBinding.Files
