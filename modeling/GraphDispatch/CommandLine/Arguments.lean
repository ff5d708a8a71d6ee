import GraphDispatch.NameMap

/-!
# Arguments

Options are read one argument at a time. One that takes a value waits for it: in
the same argument (`--name=value`, `-nvalue`) or as the next one. What an option
was given counts only once the next option begins or the arguments end.
-/

namespace GraphDispatch.CommandLine

/-- Why arguments do not make a command, or what they ask for in place of one. -/
inductive Usage where
  | noArguments
  | help
  | version
  | missingCommand
  | unknownCommand
  | missingArgument
  | unknownArgument
  | conflict
  | missingValue
  | unexpectedValue
  deriving DecidableEq, Repr

/-- What an option does. -/
inductive Effect where
  | help
  | version
  | flag
  | text
  /-- Takes a text that is not empty. -/
  | path
  deriving DecidableEq, Repr

structure Opt where
  long : String
  short : Option Char
  effect : Effect
  deriving DecidableEq, Repr

/-- What may be written: options and, instead of further arguments, commands. -/
structure Grammar where
  options : List Opt
  commands : List String
  deriving DecidableEq, Repr

/-- The arguments read so far. -/
structure Reading where
  given : NameMap String := ∅
  /-- The last option that takes a value, and the value if it is there. -/
  pending : Option (Opt × Option String) := none
  /-- Set behind `--`, where no options follow. -/
  escaped : Bool := false

namespace Reading

def record (r : Reading) (o : Opt) (value : String) : Except Usage Reading :=
  if r.given.contains o.long then throw .conflict
  else if o.effect = .path && value = "" then throw .missingValue
  else return { r with given := r.given.insert o.long value }

/-- Records the pending option. -/
def settle (r : Reading) : Except Usage Reading :=
  match r.pending with
  | none => return r
  | some (_, none) => throw .missingValue
  | some (o, some value) => { r with pending := none }.record o value

/-- Begins an option, with the value that its own argument holds. -/
def begin (r : Reading) (o : Opt) (attached : Option String) : Except Usage Reading := do
  match o.effect, attached with
  | .text, some value | .path, some value => (← r.settle).record o value
  | .text, none | .path, none => return { ← r.settle with pending := some (o, none) }
  | _, some _ => throw .unexpectedValue
  | .flag, none => (← r.settle).record o ""
  | .help, none => discard r.settle; throw .help
  | .version, none => discard r.settle; throw .version

end Reading

namespace Grammar

def long (g : Grammar) (text : List Char) (r : Reading) : Except Usage Reading :=
  let name := String.ofList (text.takeWhile (· ≠ '='))
  match g.options.find? (·.long = name) with
  | none => throw .unknownArgument
  | some o => r.begin o ((text.dropWhile (· ≠ '=')).tail?.map String.ofList)

/-- Options of one letter: the first that takes a value takes the rest. -/
def shorts (g : Grammar) : List Char → Reading → Except Usage Reading
  | [], r => return r
  | c :: rest, r =>
    match g.options.find? (·.short = some c) with
    | none => throw .unknownArgument
    | some o =>
      if o.effect = .text || o.effect = .path then
        r.begin o <| match rest with
          | [] => none
          | '=' :: value => some (String.ofList value)
          | value => some (String.ofList value)
      else do shorts g rest (← r.begin o none)

/-- What is wrong with an argument that is no option and no value. -/
def stray (g : Grammar) (r : Reading) (arg : String) : Usage :=
  if g.commands.isEmpty || r.escaped && g.commands.contains arg then .unknownArgument
  else .unknownCommand

def word (g : Grammar) (r : Reading) (arg : String) : Except Usage Reading :=
  if r.escaped then throw (g.stray r arg)
  else match arg.toList with
    | ['-', '-'] => return { r with escaped := true }
    | '-' :: '-' :: text => g.long text r
    | '-' :: c :: text => g.shorts (c :: text) r
    | _ =>
      match r.pending with
      | some (o, none) => return { r with pending := some (o, some arg) }
      | _ => throw (g.stray r arg)

/-- Reads all arguments. -/
def read (g : Grammar) (args : List String) : Except Usage (NameMap String) := do
  return (← (← args.foldlM g.word {}).settle).given

end Grammar

end GraphDispatch.CommandLine
