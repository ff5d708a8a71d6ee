import GraphDispatch.Graph.Document

/-!
# An example

A chain of convolutions, each with its activation, whose result is reshaped to
its own shape.
-/

namespace GraphDispatch.Document

variable {α : Type} [Scalar α]

def blockInput (i : Nat) : String :=
  match i with
  | 0 => "input"
  | i + 1 => "relu_" ++ toString i ++ ".out"

def node (name type : String) (inputs outputs : List String) : Operation α :=
  ⟨name, type, ∅, inputs, outputs, .unspecified⟩

def blockVariables (i : Nat) : List (Declaration α) :=
  let conv := "conv_" ++ toString i
  [⟨conv ++ ".weight", some ⟨[4, 4, 3, 3], .floats (Tensor.firstNumbers (4 * 4 * 3 * 3))⟩, true⟩,
    ⟨conv ++ ".bias", some (.vector (List.replicate 4 0)), true⟩,
    ⟨conv ++ ".out", none, false⟩, ⟨blockInput (i + 1), none, false⟩]

def blockOperations (i : Nat) : List (Operation α) :=
  let conv := "conv_" ++ toString i
  [node conv "Conv" [blockInput i, conv ++ ".weight", conv ++ ".bias"] [conv ++ ".out"],
    node ("relu_" ++ toString i) "Relu" [conv ++ ".out"] [blockInput (i + 1)]]

/-- A chain of `n` blocks. -/
def convChain (n : Nat) : Document α where
  name := "conv_chain"
  inputs := ["input"]
  outputs := ["output"]
  vars := [⟨"input", none, false⟩, ⟨"shape.out", none, false⟩, ⟨"output", none, false⟩] ++
    (List.range n).flatMap blockVariables
  operations := (List.range n).flatMap blockOperations ++
    [node "shape" "Shape" [blockInput n] ["shape.out"],
      node "reshape" "Reshape" [blockInput n, "shape.out"] ["output"]]

end GraphDispatch.Document
