import GraphDispatch.Dispatch.Run
import GraphDispatch.Files.Graph
import GraphDispatch.Rewrite.Format
import GraphDispatch.Setting.Basic

/-!
# From files to dispatched graphs
-/

namespace GraphDispatch.Pipeline

variable {σ : Type}

def format : Task (Graph Float32) (PipelineError Float32) Unit :=
  Task.wrapError .format GraphDispatch.format

def request (platform : Platform) (s : Setting) : Dispatch.Request :=
  ⟨platform, s.strategy, s.precedence, s.overrides⟩

def dispatch (platform : Platform) (s : Setting) :
    Task (Graph Float32) (PipelineError Float32) DispatchTable :=
  Task.wrapError .dispatch (Dispatch.run (request platform s))

/-- Reads a graph file and formats the graph. -/
def load (path : String) : FileTask (Graph Float32) := do
  let g ← Files.importGraph path .native
  return (← Task.on g format).2

/-- Loads a graph and dispatches it. -/
def loadDispatched (path : String) (platform : Platform) (s : Setting) :
    FileTask (DispatchTable × Graph Float32) := do
  let g ← load path
  Task.on g (dispatch platform s)

end GraphDispatch.Pipeline
