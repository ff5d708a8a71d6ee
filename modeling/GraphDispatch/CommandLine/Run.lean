import GraphDispatch.CommandLine.Command
import GraphDispatch.Files.Setting
import GraphDispatch.Pipeline.Load

/-!
# Running commands
-/

namespace GraphDispatch.CommandLine

inductive CommandError where
  | usage (usage : Usage)
  /-- No platform is named, and no simple setting names one. -/
  | noPlatform (setting : Bool)
  | loading (path : String) (cause : PipelineError Float32)
  | failed (cause : PipelineError Float32)

namespace CommandError

/-- The error and its reasons, outermost first. -/
def reasons : CommandError → List String
  | usage _ => []
  | noPlatform setting =>
    [if setting then "--platform is required with --setting"
      else "--platform is required without a setting"]
  | loading path cause => ("loading graph " ++ path) :: cause.reasons
  | failed cause => cause.reasons

def fault? : CommandError → Option SizeFault
  | usage _ | noPlatform _ => none
  | loading _ cause | failed cause => cause.fault?

end CommandError

abbrev CommandTask (β : Type) := Task FileTree CommandError β

def pipeline {β : Type} (m : FileTask β) : CommandTask β := Task.wrapError .failed m

def parsePlatform (name : String) : Except (PipelineError Float32) Platform :=
  match Platform.parse? name with
  | some p => return p
  | none => throw (.setting (.unknownPlatform name))

def noteIgnored (unknown : List String) : CommandTask Unit := do
  if !unknown.isEmpty then Task.note (.ignoredEntries unknown)

/-- The platform and the setting to dispatch with. -/
def resolve (platform : Option String) (setting simpleSetting : Option String) :
    CommandTask (Platform × Setting) := do
  let platform ← Task.ofExcept .failed (platform.mapM parsePlatform)
  match setting, simpleSetting with
  | some path, _ =>
    let some platform := platform | throw (.noPlatform true)
    let (setting, unknown) ← pipeline (Files.readSetting path)
    noteIgnored unknown
    return (platform, setting)
  | none, some path =>
    let (simple, unknown) ← pipeline (Files.readSimpleSetting path)
    noteIgnored unknown
    return (platform.getD simple.platform, simple.expand)
  | none, none =>
    let some platform := platform | throw (.noPlatform false)
    return (platform, {})

/-- How many operations each platform has, for those that have any. -/
def countPlatforms (t : DispatchTable) : List (Platform × Nat) :=
  (Platform.all.map fun p => (p, t.values.count p)).filter (0 < ·.2)

def runDispatch (c : DispatchCommand) : CommandTask Unit := do
  let (platform, setting) ← resolve c.platform c.setting c.simpleSetting
  let g ← Task.wrapError (.loading c.graph) (Pipeline.load c.graph)
  let (table, g) ← pipeline (Task.on g (Pipeline.dispatch platform setting))
  let overwritten ← pipeline
    (Files.exportGraph g .native c.output (some (c.output ++ ".json")))
  overwritten.forM fun path => Task.note (.overwriting path)
  Task.note (.dispatchedFile c.graph platform (countPlatforms table))

def runConvert (c : ConvertCommand) : CommandTask Unit := do
  let (simple, unknown) ← pipeline (Files.readSimpleSetting c.simpleSetting)
  noteIgnored unknown
  if ← pipeline (Files.writeSetting c.output simple.expand) then
    Task.note (.overwriting c.output)
  Task.note (.settingWritten simple.platform c.output)

def Action.run : Action → CommandTask Unit
  | dispatch c => runDispatch c
  | convert c => runConvert c

/-- Reads the arguments and does what they say. -/
def run (environment : Option String) (args : List String) : CommandTask Unit := do
  let invocation ← Task.ofExcept .usage (read environment args)
  invocation.action.run

end GraphDispatch.CommandLine
