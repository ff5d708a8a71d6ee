import GraphDispatch.Files.Output
import GraphDispatch.Graph.Encoding

/-!
# Graphs in files

A graph file holds the document of a graph. Beside it goes, where asked for, a
file with the platform of every operation.
-/

namespace GraphDispatch.Files

open Json

/-- Opening a directory succeeds, only reading from it does not. -/
def openGraph (path : String) : FileTask (List Symbol) := do
  match (← Task.state).read path with
  | .ok bytes => return symbols bytes
  | .error .isDirectory => throw (.document .unreadableFile)
  | .error e => throw (.opening path e)

def readGraph (path : String) : FileTask (Graph Float32) := do
  let g ← Task.ofExcept .document (Graph.ofSymbols (← openGraph path))
  Task.note (.loaded g.name path g.operations.size g.vars.size)
  return g

/-- Reads a graph in one of the formats. -/
def importGraph (path : String) (framework : Framework) : FileTask (Graph Float32) := do
  if !framework.hasImporter then throw (.noImporter framework)
  readGraph path

/-- The platforms of the operations, by their names. -/
def platforms (g : Graph Float32) : Value :=
  .object (NameMap.ofList (g.operations.values.map fun o =>
    (o.name, Encoding.platform o.platform))).entries

def writeGraph (g : Graph Float32) (path : String) (config : Option String) : FileTask Unit := do
  writeText path g.text
  config.forM fun config => writeText config ((platforms g).indented 2)
  Task.note (.exported g.name path)

def graphPath (platform : Platform) (path : String) : String :=
  path ++ platform.fileSuffix?.getD ""

/-- Writes a graph for a platform, whose suffix is appended to the path. Both
paths are checked before anything is written; those overwritten are returned. -/
def exportGraph (g : Graph Float32) (platform : Platform) (path : String)
    (config : Option String) : FileTask (List String) := do
  let path := graphPath platform path
  let overwritten ← (path :: config.toList).filterM checkOutput
  if !platform.hasExporter then throw (.noExporter platform)
  writeGraph g path config
  return overwritten

/-- The path of an entry of a directory. -/
def entryPath (directory name : String) : String :=
  if directory = "" || directory.endsWith "/" then directory ++ name
  else directory ++ "/" ++ name

def exportToDirectory (g : Graph Float32) (platform : Platform) (directory : String) :
    FileTask (List String) :=
  exportGraph g platform (entryPath directory "quantized")
    (some (entryPath directory "quantized.json"))

end GraphDispatch.Files
