import GraphDispatch.Text.Case

/-!
# Platforms and exchange formats

The closed set of backends an operation can be sent to. Each has a code, used
by overrides, and a name, used by documents; both determine the platform.
-/

namespace GraphDispatch

inductive Platform where
  | unspecified
  | shapeOrIndex
  | boundary
  | onnx
  | caffe
  | native
  | onnxRuntime
  | fp32
  | extension
  | trtInt8
  | pplCudaInt8
  | pplCudaInt4
  | pplCudaMix
  | pplDspInt8
  | snpeInt8
  | pplDspTiInt8
  | nxpInt8
  | ortOosInt8
  | metaxInt8C
  | metaxInt8T
  | academicInt4
  | academicInt8
  | academicMix
  deriving DecidableEq, Repr, Inhabited

namespace Platform

/-- All platforms, in the order in which tables by platform list them. -/
def all : List Platform :=
  [unspecified, shapeOrIndex, boundary, onnx, caffe, native, onnxRuntime, fp32, extension,
    trtInt8, pplCudaInt8, pplCudaInt4, pplCudaMix, pplDspInt8, snpeInt8, pplDspTiInt8,
    nxpInt8, ortOosInt8, metaxInt8C, metaxInt8T, academicInt4, academicInt8, academicMix]

@[simp] theorem mem_all (p : Platform) : p ∈ all := by cases p <;> decide

def code : Platform → Int64
  | unspecified => 0
  | shapeOrIndex => 1
  | boundary => 2
  | onnx => 3
  | caffe => 4
  | native => 5
  | onnxRuntime => 6
  | fp32 => 7
  | extension => 8
  | trtInt8 => 101
  | pplCudaInt8 => 201
  | pplCudaInt4 => 202
  | pplCudaMix => 204
  | pplDspInt8 => 301
  | snpeInt8 => 302
  | pplDspTiInt8 => 303
  | nxpInt8 => 501
  | ortOosInt8 => 601
  | metaxInt8C => 701
  | metaxInt8T => 702
  | academicInt4 => 10081
  | academicInt8 => 10082
  | academicMix => 10083

def name : Platform → String
  | unspecified => "UNSPECIFIED"
  | shapeOrIndex => "SHAPE_OR_INDEX"
  | boundary => "BOUNDARY"
  | onnx => "ONNX"
  | caffe => "CAFFE"
  | native => "NATIVE"
  | onnxRuntime => "ONNXRUNTIME"
  | fp32 => "FP32"
  | extension => "EXTENSION"
  | trtInt8 => "TRT_INT8"
  | pplCudaInt8 => "PPL_CUDA_INT8"
  | pplCudaInt4 => "PPL_CUDA_INT4"
  | pplCudaMix => "PPL_CUDA_MIX"
  | pplDspInt8 => "PPL_DSP_INT8"
  | snpeInt8 => "SNPE_INT8"
  | pplDspTiInt8 => "PPL_DSP_TI_INT8"
  | nxpInt8 => "NXP_INT8"
  | ortOosInt8 => "ORT_OOS_INT8"
  | metaxInt8C => "METAX_INT8_C"
  | metaxInt8T => "METAX_INT8_T"
  | academicInt4 => "ACADEMIC_INT4"
  | academicInt8 => "ACADEMIC_INT8"
  | academicMix => "ACADEMIC_MIX"

def ofCode? (c : Int64) : Option Platform := all.find? (·.code = c)

def ofName? (s : String) : Option Platform := all.find? (·.name = s)

@[simp] theorem ofCode?_code (p : Platform) : ofCode? p.code = some p := by
  cases p <;> decide

@[simp] theorem ofName?_name (p : Platform) : ofName? p.name = some p := by
  cases p <;> decide

/-- The names by which documents know the platforms. -/
def named : List (String × Platform) := all.map fun p => (p.name, p)

/-- A name as a user writes it: exact, or in letters of any case. -/
def parse? (s : String) : Option Platform := ofName? s <|> ofName? (Text.upper s)

/-- The platforms that a quantizer can target. -/
def isQuantized : Platform → Bool
  | trtInt8 | pplCudaInt8 | pplCudaInt4 | pplCudaMix | pplDspInt8 | snpeInt8 | pplDspTiInt8
  | nxpInt8 | ortOosInt8 | metaxInt8C | metaxInt8T | academicInt4 | academicInt8 | academicMix
  | extension => true
  | unspecified | shapeOrIndex | boundary | onnx | caffe | native | onnxRuntime | fp32 => false

/-- What is appended to the name of a graph file that is written for a platform. -/
def fileSuffix? : Platform → Option String
  | pplDspInt8 | pplDspTiInt8 | snpeInt8 | nxpInt8 | caffe => some ".caffemodel"
  | pplCudaInt8 | onnx | onnxRuntime | ortOosInt8 | metaxInt8C | metaxInt8T => some ".onnx"
  | native => some ".native"
  | extension => some ".ext"
  | unspecified | shapeOrIndex | boundary | fp32 | trtInt8 | pplCudaInt4 | pplCudaMix
  | academicInt4 | academicInt8 | academicMix => none

/-- Whether graphs can be written for a platform. -/
def hasExporter (p : Platform) : Bool := p = native

end Platform

/-- The formats a graph can be imported from. -/
inductive Framework where
  | onnx
  | caffe
  | native
  deriving DecidableEq, Repr

namespace Framework

def name : Framework → String
  | onnx => "ONNX"
  | caffe => "CAFFE"
  | native => "NATIVE"

def named : List (String × Framework) := [onnx, caffe, native].map fun f => (f.name, f)

def hasImporter (f : Framework) : Bool := f = native

end Framework

end GraphDispatch
