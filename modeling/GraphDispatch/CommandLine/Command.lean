import GraphDispatch.CommandLine.Arguments

/-!
# Commands

`dispatch` reads a graph, dispatches it and writes the result; `convert` expands
a simple setting. The platform may also come from the environment.
-/

namespace GraphDispatch.CommandLine

structure DispatchCommand where
  graph : String
  platform : Option String
  setting : Option String
  simpleSetting : Option String
  output : String
  deriving DecidableEq, Repr

structure ConvertCommand where
  simpleSetting : String
  output : String
  deriving DecidableEq, Repr

inductive Action where
  | dispatch (command : DispatchCommand)
  | convert (command : ConvertCommand)
  deriving DecidableEq, Repr

structure Invocation where
  /-- Whether the log is to be written as JSON. -/
  json : Bool
  action : Action
  deriving DecidableEq, Repr

def json : Opt := ⟨"json", none, .flag⟩
def help : Opt := ⟨"help", some 'h', .help⟩

def programGrammar : Grammar :=
  ⟨[json, help, ⟨"version", some 'V', .version⟩], ["dispatch", "convert", "help"]⟩

def dispatchGrammar : Grammar :=
  ⟨[⟨"graph", some 'g', .path⟩, ⟨"platform", some 'p', .text⟩, ⟨"setting", none, .path⟩,
    ⟨"simple-setting", none, .path⟩, ⟨"output", some 'o', .path⟩, json, help], []⟩

def convertGrammar : Grammar :=
  ⟨[⟨"simple-setting", some 's', .path⟩, ⟨"output", some 'o', .path⟩, json, help], []⟩

def required (given : NameMap String) (name : String) : Except Usage String :=
  match given.get? name with
  | some value => return value
  | none => throw .missingArgument

def dispatchCommand (given : NameMap String) (environment : Option String) :
    Except Usage DispatchCommand := do
  if given.contains "setting" && given.contains "simple-setting" then throw .conflict
  return ⟨← required given "graph", given.get? "platform" <|> environment,
    given.get? "setting", given.get? "simple-setting", ← required given "output"⟩

def convertCommand (given : NameMap String) : Except Usage ConvertCommand :=
  return ⟨← required given "simple-setting", ← required given "output"⟩

/-- Help is there for the program and for each of its commands. -/
def helpOn : List String → Usage
  | [] => .help
  | [command] => if programGrammar.commands.contains command then .help else .unknownCommand
  | _ => .unknownCommand

/-- What the arguments are without a command. -/
def withoutCommand (r : Reading) : Except Usage Invocation := do
  if (← r.settle).given.isEmpty then throw .noArguments else throw .missingCommand

/-- Reads arguments up to the command and those behind it as the command's own. -/
def readFrom (environment : Option String) (r : Reading) : List String → Except Usage Invocation
  | [] => withoutCommand r
  | arg :: rest => do
    match r.escaped, arg with
    | false, "help" => throw (helpOn rest)
    | false, "dispatch" =>
      let given ← dispatchGrammar.read rest
      return ⟨r.given.contains "json" || given.contains "json",
        .dispatch (← dispatchCommand given environment)⟩
    | false, "convert" =>
      let given ← convertGrammar.read rest
      return ⟨r.given.contains "json" || given.contains "json",
        .convert (← convertCommand given)⟩
    | _, _ => readFrom environment (← programGrammar.word r arg) rest

/-- The command that arguments stand for. `environment` is the platform that holds
where none is named. -/
def read (environment : Option String) (args : List String) : Except Usage Invocation :=
  readFrom environment {} args

end GraphDispatch.CommandLine
