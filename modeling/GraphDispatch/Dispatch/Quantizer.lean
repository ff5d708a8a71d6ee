import GraphDispatch.Platform

/-!
# Quantizers

The operation types that the quantizer of a platform can handle.
-/

namespace GraphDispatch

def pplTypes : List String :=
  ["Add", "AveragePool", "Clip", "Concat", "Conv", "ConvTranspose", "Div", "Flatten", "Gemm",
    "GlobalAveragePool", "GlobalMaxPool", "HardSigmoid", "HardSwish", "LeakyRelu", "MatMul",
    "Max", "MaxPool", "Mul", "PRelu", "Pad", "ReduceMean", "Relu", "Resize", "Sigmoid", "Slice",
    "Softmax", "Sub", "Transpose"]

def trtTypes : List String :=
  ["AveragePool", "Conv", "ConvTranspose", "Gemm", "GlobalAveragePool", "MatMul"]

def dspTypes : List String :=
  ["Add", "AveragePool", "Clip", "Concat", "Conv", "ConvTranspose", "Div", "Gemm",
    "GlobalAveragePool", "GlobalMaxPool", "LeakyRelu", "Max", "MaxPool", "Mul", "PRelu", "Pad",
    "ReduceMean", "Relu", "Resize", "Sigmoid", "Slice", "Split", "Sub", "Transpose"]

def nxpTypes : List String :=
  ["Add", "AveragePool", "Clip", "Concat", "Conv", "ConvTranspose", "Gemm",
    "GlobalAveragePool", "MaxPool", "PRelu", "Pad", "Relu", "Sigmoid"]

def ortTypes : List String :=
  ["Add", "AveragePool", "Clip", "Concat", "Conv", "Gemm", "GlobalAveragePool", "LeakyRelu",
    "MatMul", "MaxPool", "Mul", "Relu", "Sigmoid"]

def academicTypes : List String := ["Add", "Clip", "Conv", "ConvTranspose", "Gemm", "Relu"]

/-- The types that the quantizer of a platform handles, in order; none for a
platform without a quantizer. -/
def Platform.quantizer? : Platform → Option (List String)
  | .trtInt8 => some trtTypes
  | .pplCudaInt8 | .pplCudaInt4 | .pplCudaMix | .metaxInt8C | .metaxInt8T => some pplTypes
  | .pplDspInt8 | .snpeInt8 | .pplDspTiInt8 => some dspTypes
  | .nxpInt8 => some nxpTypes
  | .ortOosInt8 => some ortTypes
  | .academicInt4 | .academicInt8 | .academicMix => some academicTypes
  | .unspecified | .shapeOrIndex | .boundary | .onnx | .caffe | .native | .onnxRuntime | .fp32
  | .extension => none

end GraphDispatch
