import GraphDispatch.CommandLine.Run

/-!
# The program

Takes a picture of the files that the arguments name, runs the command on it,
and writes back the files that the command changed.
-/

namespace GraphDispatch

open CommandLine

def usageText : String :=
  "Usage: graph-dispatch [--json] dispatch --graph FILE --output FILE [--platform NAME]\n" ++
  "                      [--setting FILE | --simple-setting FILE]\n" ++
  "       graph-dispatch [--json] convert --simple-setting FILE --output FILE"

def CommandLine.Usage.text : Usage → String
  | .noArguments | .help => usageText
  | .version => "graph-dispatch 0.1.0"
  | .missingCommand => "no command is given"
  | .unknownCommand => "there is no such command"
  | .missingArgument => "a required argument is missing"
  | .unknownArgument => "there is no such argument"
  | .conflict => "an argument is given twice or conflicts with another one"
  | .missingValue => "an argument lacks its value"
  | .unexpectedValue => "an argument takes no value"

/-- The paths that a command reads or writes. -/
def CommandLine.Action.paths : Action → List String
  | .dispatch c =>
    c.graph :: (c.setting.toList ++ c.simpleSetting.toList ++
      [Files.graphPath .native c.output, c.output ++ ".json"])
  | .convert c => [c.simpleSetting, c.output]

def probe (path : String) : IO (Option FileEntry) := do
  try return some (.file (← IO.FS.readBinFile path))
  catch
    | .noFileOrDirectory .. => return none
    | .inappropriateType .. => return some .directory
    | e => throw e

/-- A path and the directories above it. -/
def withParents (path : String) : List String :=
  let parts := path.splitOn "/"
  ((List.range parts.length).map fun n => "/".intercalate (parts.take (n + 1))).filter (· ≠ "")

def picture (paths : List String) : IO FileTree :=
  (paths.flatMap withParents).foldlM (fun files path => do
    match files.locate path with
    | .ok place => return ((← probe path).map (files.put place)).getD files
    | .error _ => return files) FileTree.empty

def writeBack (before after : FileTree) (path : String) : IO Unit := do
  match before.entry? path, after.entry? path with
  | some (.file old), some (.file new) =>
    if old.data ≠ new.data then IO.FS.writeBinFile path new
  | none, some (.file new) => IO.FS.writeBinFile path new
  | _, _ => pure ()

def logLine (json : Bool) (e : Event) : String :=
  if json then
    (Json.Value.object [("level", .string e.level.name), ("message", .string e.message)]).compact
  else e.text

def report (json : Bool) (events : List Event) : IO Unit :=
  events.reverse.forM fun e => do
    if Level.info.rank ≤ e.level.rank then IO.eprintln (logLine json e)

def runInvocation (invocation : Invocation) : IO UInt32 := do
  let paths := invocation.action.paths
  let before ← picture paths
  let finish (after : Logged FileTree) : IO Unit := do
    report invocation.json after.events
    paths.forM (writeBack before after.state)
  match invocation.action.run ⟨before, []⟩ with
  | .ok _ after =>
    finish after
    return 0
  | .error e after =>
    finish after
    IO.eprintln ("Error: " ++ ": ".intercalate e.reasons)
    return 1

def runArguments (args : List String) : IO UInt32 := do
  match CommandLine.read (← IO.getEnv "GRAPH_DISPATCH_PLATFORM") args with
  | .ok invocation => runInvocation invocation
  | .error usage =>
    IO.eprintln usage.text
    return if usage = .help ∨ usage = .version then 0 else 2

end GraphDispatch

def main (args : List String) : IO UInt32 := GraphDispatch.runArguments args
