import GraphDispatch.Files.Output
import GraphDispatch.Setting.Unknown

/-!
# Settings in files

Unknown entries of a setting file are reported and skipped.
-/

namespace GraphDispatch.Files

open Json

/-- The value in a text, with its fields in order. -/
def parse (text : List Symbol) : Except ReadError Value :=
  ((Value.ofSymbols text).map Value.normal).mapError .text

def requireFile (path : String) : FileTask Unit := do
  if !(← Task.state).isFile path then throw (.setting (.noFile path))

def noteUnknown (path : String) (entries : List String) : FileTask Unit :=
  entries.forM fun entry => Task.note (.unknownEntry entry path)

/-- The setting in a file, and the entries that were skipped. -/
def readSetting (path : String) : FileTask (Setting × List String) := do
  requireFile path
  let bytes ← Task.ofExcept .file ((← Task.state).read path)
  let .object fields ← Task.ofExcept .document (parse (symbols bytes))
    | throw (.setting (.noObject path))
  let unknown := Setting.unknownEntries fields
  noteUnknown path unknown
  let setting ← Task.ofExcept (fun e => .document (.contents e))
    (Decoding.setting .held (Value.object fields).outline)
  return (setting, unknown)

/-- Returns whether a file was overwritten. -/
def writeSetting (path : String) (s : Setting) : FileTask Bool := do
  let overwritten ← checkOutput path
  writeText path ((Encoding.setting s).indented 2)
  return overwritten

/-- A simple setting names its platform exactly. -/
def checkPlatform (fields : List (String × Value)) : Except SettingFault Unit :=
  match fields.lookup "platform" with
  | some (.string name) =>
    if (Platform.ofName? name).isSome then return () else throw (.unknownPlatform name)
  | some found => throw (.unnamedPlatform found)
  | none => throw .noPlatform

/-- The simple setting in a file, and the entries that were skipped. -/
def readSimpleSetting (path : String) : FileTask (SimpleSetting × List String) := do
  requireFile path
  let text ← Task.ofExcept .file ((← Task.state).readText path)
  let .object fields ← Task.ofExcept .document (parse (text.toList.map some))
    | throw (.setting (.noSimpleObject path))
  Task.ofExcept .setting (checkPlatform fields)
  let unknown := SimpleSetting.unknownEntries fields
  noteUnknown path unknown
  let setting ← Task.ofExcept (fun e => .setting (.contents e))
    (Decoding.simple .held (Value.object fields).outline)
  return (setting, unknown)

/-- Returns whether a file was overwritten. -/
def writeSimpleSetting (path : String) (s : SimpleSetting) : FileTask Bool := do
  let overwritten ← checkOutput path
  writeText path ((Encoding.sortedSimple s).indented 4)
  return overwritten

end GraphDispatch.Files
