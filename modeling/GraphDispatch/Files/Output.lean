import GraphDispatch.Pipeline.Error
import GraphDispatch.Task

/-!
# Output files

An existing file may be overwritten, which is reported; a directory may not.
Directories are created together with those above them.
-/

namespace GraphDispatch

/-- A task on the files of a working directory. -/
abbrev FileTask (β : Type) := Task FileTree (PipelineError Float32) β

namespace Files

/-- Whether a file that is there would be overwritten. -/
def checkOutput (path : String) : FileTask Bool := do
  let files ← Task.state
  if files.isDirectory path then throw (.outputIsDirectory path)
  if !files.contains path then return false
  Task.note (.overwriting path)
  return true

def writeText (path text : String) : FileTask Unit := do
  Task.put (← Task.ofExcept .file ((← Task.state).writeText path text))

/-- Creates a directory if there is none. -/
def openDirectory (path : String) : FileTask Unit := do
  let files ← Task.state
  match files.makeDirectory path with
  | .ok files => Task.put files
  | .error e => if !files.isDirectory path then throw (.file e)

/-- Creates the directory at a path, and before it those above it where they are
missing; `steps` lead to it, from the last to the first. -/
def openPath (path : String) (steps : List String) : FileTask Unit := do
  match steps with
  | [] => if path ≠ "" then openDirectory path
  | _ :: above =>
    match (← Task.state).makeDirectory path with
    | .error .notFound => openPath ("/".intercalate above.reverse) above
    | _ => pure ()
    openDirectory path

/-- A step that stays where it is leads to no directory above. -/
def makeDirectories (path : String) : FileTask Unit :=
  openPath path ((path.splitOn "/").filter fun step => step ≠ "" && step ≠ ".").reverse

end Files

end GraphDispatch
