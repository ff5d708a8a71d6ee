import GraphDispatch.Dispatch.Strategy
import GraphDispatch.Json.Printer
import GraphDispatch.Platform
import GraphDispatch.Rewrite.Command

/-!
# Events

What a run reports while it goes on, by what happened. Levels go from detail to
warning; a reader asks for the events of a level and above.
-/

namespace GraphDispatch

inductive Level where
  | debug
  | info
  | warn
  deriving DecidableEq, Repr

namespace Level

def rank : Level → Nat
  | debug => 0
  | info => 1
  | warn => 2

def name : Level → String
  | debug => "DEBUG"
  | info => "INFO"
  | warn => "WARN"

end Level

inductive Event where
  | statisticsNotParameters (norm : String)
  | statisticsMismatch (norm : String) (channels : Nat) (parent : String)
  | folding (norm parent : String)
  | rewrote (command : Command) (count : Nat) (graph : String)
  | noOutput (graph : String)
  | proposed (op type : String) (platform : Platform)
  | overrideIgnored (op graph : String)
  | overridden (op : String) (platform previous : Platform)
  | switchRemoved (switch var : String)
  | switchesRemoved (count : Nat)
  | switchInserted (switch var : String) (source target : Platform)
  | dispatched (operations : Nat) (graph : String) (strategy : Strategy) (switches : Nat)
  | quantized (graph : String) (platform : Platform)
  | loaded (graph path : String) (operations vars : Nat)
  | exported (graph path : String)
  | overwriting (path : String)
  | unknownEntry (entry path : String)
  | ignoredEntries (entries : List String)
  | dispatchedFile (path : String) (platform : Platform) (counts : List (Platform × Nat))
  | settingWritten (platform : Platform) (path : String)
  deriving DecidableEq, Repr

namespace Event

def level : Event → Level
  | statisticsNotParameters .. | statisticsMismatch .. | folding .. | rewrote .. | proposed ..
  | overrideIgnored .. | switchRemoved .. | switchesRemoved .. | switchInserted .. => .debug
  | overridden .. | dispatched .. | quantized .. | loaded .. | exported .. | dispatchedFile ..
  | settingWritten .. => .info
  | noOutput .. | overwriting .. | unknownEntry .. | ignoredEntries .. => .warn

def overwritingText (path : String) : String :=
  "file " ++ path ++ " already exists, it will be overwritten"

def countsText (counts : List (Platform × Nat)) : String :=
  (Json.Value.object (counts.map fun c =>
    (c.1.name, .number (.natural (UInt64.ofNat c.2))))).compact

def message : Event → String
  | statisticsNotParameters norm =>
    "fuse bn: statistics of " ++ norm ++ " are not parameters, skipping"
  | statisticsMismatch norm channels parent =>
    "fuse bn: statistics of " ++ norm ++ " do not match the " ++ toString channels ++
      " channels of " ++ parent ++ ", skipping"
  | folding norm parent => "fuse bn: folding " ++ norm ++ " into " ++ parent
  | rewrote command count graph =>
    "format: " ++ command.title ++ " rewrote " ++ toString count ++ " node(s) of graph " ++ graph
  | noOutput graph =>
    "graph " ++ graph ++ " declares no output, only unreferenced variables are removed"
  | proposed op type platform =>
    "dispatch: " ++ op ++ " (" ++ type ++ ") -> " ++ platform.name
  | overrideIgnored op graph =>
    "dispatching override for " ++ op ++ " ignored, no such operation in graph " ++ graph
  | overridden op platform previous =>
    "operation " ++ op ++ " dispatched to " ++ platform.name ++ " by user, instead of " ++
      previous.name
  | switchRemoved switch var =>
    "switch " ++ switch ++ " is stale, " ++ var ++ " is read directly again"
  | switchesRemoved count => "removed " ++ toString count ++ " stale switches"
  | switchInserted switch var source target =>
    "switch " ++ switch ++ " relays " ++ var ++ " from " ++ source.name ++ " to " ++ target.name
  | dispatched operations graph strategy switches =>
    "dispatched " ++ toString operations ++ " operations of graph " ++ graph ++ " with the " ++
      strategy.name ++ " dispatcher, " ++ toString switches ++ " switches inserted"
  | quantized graph platform => "quantized graph " ++ graph ++ " for " ++ platform.name
  | loaded graph path operations vars =>
    "loaded graph " ++ graph ++ " from " ++ path ++ ": " ++ toString operations ++
      " operations, " ++ toString vars ++ " variables"
  | exported graph path => "exported graph " ++ graph ++ " to " ++ path
  | overwriting path => overwritingText path
  | unknownEntry entry path =>
    "unknown entry " ++ entry ++ " in setting file " ++ path ++ ", ignored"
  | ignoredEntries entries => "ignored setting entries: " ++ ", ".intercalate entries
  | dispatchedFile path platform counts =>
    "dispatched " ++ path ++ " for " ++ platform.name ++ ": " ++ countsText counts
  | settingWritten platform path =>
    "setting for " ++ platform.name ++ " written to " ++ path

def text (e : Event) : String := e.level.name ++ " " ++ e.message

end Event

end GraphDispatch
