import GraphDispatch.Json.Token
import GraphDispatch.NameMap

/-!
# File trees

The files and directories below a working directory. A path is followed step by
step, and every step but the last must lead to a directory.
-/

namespace GraphDispatch

inductive FileError where
  | notFound
  | exists
  | notDirectory
  | isDirectory
  | nameTooLong
  | nulByte
  | notText
  deriving DecidableEq, Repr

def FileError.message : FileError → String
  | .notFound => "No such file or directory (os error 2)"
  | .exists => "File exists (os error 17)"
  | .notDirectory => "Not a directory (os error 20)"
  | .isDirectory => "Is a directory (os error 21)"
  | .nameTooLong => "File name too long (os error 36)"
  | .nulByte => "file name contained an unexpected NUL byte"
  | .notText => "stream did not contain valid UTF-8"

inductive FileEntry where
  | file (bytes : ByteArray)
  | directory

def FileEntry.isDirectory : FileEntry → Bool
  | file _ => false
  | directory => true

/-- Entries by the steps that lead to them, joined by slashes. -/
structure FileTree where
  entries : NameMap FileEntry

namespace FileTree

def empty : FileTree := ⟨∅⟩

def key (steps : List String) : String := "/".intercalate steps

def entryAt? (t : FileTree) (steps : List String) : Option FileEntry :=
  if steps = [] then some .directory else t.entries.get? (key steps)

/-- Where a step of a path leads. -/
def follow (here : List String) (step : String) : List String :=
  if step = "" || step = "." then here
  else if step = ".." then here.dropLast
  else here ++ [step]

/-- Fails where a path goes on behind what is no directory. -/
def enter (t : FileTree) (here : List String) : Except FileError Unit :=
  match t.entryAt? here with
  | some .directory => return ()
  | some (.file _) => throw .notDirectory
  | none => throw .notFound

/-- How many bytes a step of a path may have. -/
def stepLimit : Nat := 255

/-- How many bytes a path may have. -/
def pathLimit : Nat := 4095

/-- Refuses what can be no path, whatever there is. -/
def checkPath (path : String) : Except FileError Unit := do
  if path.contains (Char.ofNat 0) then throw .nulByte
  if path = "" then throw .notFound
  if pathLimit < path.utf8ByteSize then throw .nameTooLong

/-- The place that steps lead to; what lies above it are directories. -/
def walk (t : FileTree) (steps : List String) : Except FileError (List String) :=
  steps.foldlM (fun here step => do
    t.enter here
    if stepLimit < step.utf8ByteSize then throw .nameTooLong
    return follow here step) []

def locate (t : FileTree) (path : String) : Except FileError (List String) := do
  checkPath path
  t.walk (path.splitOn "/")

def entry (t : FileTree) (path : String) : Except FileError FileEntry := do
  match t.entryAt? (← t.locate path) with
  | some e => return e
  | none => throw .notFound

def entry? (t : FileTree) (path : String) : Option FileEntry := (t.entry path).toOption

def isDirectory (t : FileTree) (path : String) : Bool := (t.entry? path).any FileEntry.isDirectory

def isFile (t : FileTree) (path : String) : Bool := (t.entry? path).any (!·.isDirectory)

def contains (t : FileTree) (path : String) : Bool := (t.entry? path).isSome

def read (t : FileTree) (path : String) : Except FileError ByteArray := do
  match ← t.entry path with
  | .file bytes => return bytes
  | .directory => throw .isDirectory

def readText (t : FileTree) (path : String) : Except FileError String := do
  match String.fromUTF8? (← t.read path) with
  | some s => return s
  | none => throw .notText

def put (t : FileTree) (steps : List String) (e : FileEntry) : FileTree :=
  ⟨t.entries.insert (key steps) e⟩

/-- The steps of a path without the slashes at its end. -/
def stem (path : String) : List String :=
  ((path.splitOn "/").reverse.dropWhile (· = "")).reverse

/-- Replaces or creates a file; a path that ends in a slash names none. -/
def write (t : FileTree) (path : String) (bytes : ByteArray) : Except FileError FileTree := do
  checkPath path
  if path.endsWith "/" then
    t.enter (← t.walk (stem path).dropLast)
    throw .isDirectory
  let place ← t.walk (path.splitOn "/")
  if (t.entryAt? place).any FileEntry.isDirectory then throw .isDirectory
  return t.put place (.file bytes)

def writeText (t : FileTree) (path text : String) : Except FileError FileTree :=
  t.write path text.toUTF8

/-- Creates a directory where nothing is yet. -/
def makeDirectory (t : FileTree) (path : String) : Except FileError FileTree := do
  checkPath path
  let place ← t.walk (stem path)
  if (t.entryAt? place).isSome then throw .exists
  return t.put place .directory

/-- The name of what lies directly in a directory, by its path. -/
def childName? (directory : List String) (path : String) : Option String :=
  let steps := path.splitOn "/"
  if steps.length = directory.length + 1 && steps.take directory.length = directory then
    steps[directory.length]?
  else none

/-- The names of the entries in a directory, in order. -/
def list (t : FileTree) (path : String) : Except FileError (List String) := do
  let place ← t.locate path
  t.enter place
  return (t.entries.names.filterMap (childName? place)).mergeSort

end FileTree

/-- The character that bytes begin with, and the number of its bytes. -/
def leadingChar? (bytes : List UInt8) : Option (Char × Nat) :=
  [1, 2, 3, 4].findSome? fun n =>
    match (String.fromUTF8? ⟨(bytes.take n).toArray⟩).map String.toList with
    | some [c] => some (c, n)
    | _ => none

def symbolsOfBytes (bytes : List UInt8) : List Json.Symbol :=
  match bytes with
  | [] => []
  | b :: rest =>
    match leadingChar? (b :: rest) with
    | some (c, n) => some c :: symbolsOfBytes (rest.drop (n - 1))
    | none => none :: symbolsOfBytes rest
termination_by bytes.length
decreasing_by
  · simp only [List.length_drop, List.length_cons]; omega
  · simp

/-- The characters that bytes encode; a byte that belongs to none stands alone. -/
def symbols (bytes : ByteArray) : List Json.Symbol :=
  match String.fromUTF8? bytes with
  | some s => s.toList.map some
  | none => symbolsOfBytes bytes.toList

end GraphDispatch
