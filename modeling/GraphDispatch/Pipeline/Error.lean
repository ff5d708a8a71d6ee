import GraphDispatch.Dispatch.Error
import GraphDispatch.Files.Tree
import GraphDispatch.Json.DecodeError
import GraphDispatch.Json.Printer
import GraphDispatch.Rewrite.Message

/-!
# Errors of the pipeline

Why a graph or a setting does not make its way from one file to another. Some
errors are the user's, in what was asked for; errors of the graph itself are
told with all their reasons.
-/

namespace GraphDispatch

open Json

inductive SettingFault where
  | unknownPlatform (name : String)
  | noFile (path : String)
  | noObject (path : String)
  | noSimpleObject (path : String)
  | unnamedPlatform (found : Value)
  | noPlatform
  | contents (cause : DecodeError)

def SettingFault.message : SettingFault → String
  | unknownPlatform name => "unknown platform \"" ++ name ++ "\""
  | noFile path => "setting file " ++ path ++ " does not exist"
  | noObject path => "setting file " ++ path ++ " does not hold a JSON object"
  | noSimpleObject path => "setting file " ++ path ++ " does not contain a JSON object"
  | unnamedPlatform found => "platform must be given by name, found " ++ found.compact
  | noPlatform => "setting does not specify a platform"
  | contents cause => cause.message

inductive CalibrationFault where
  | noSource
  | noSteps
  | emptySource
  deriving DecidableEq, Repr

def CalibrationFault.message : CalibrationFault → String
  | noSource => "no calibration source given"
  | noSteps => "calibration steps must be positive"
  | emptySource => "calibration source is empty"

inductive PipelineError (α : Type) where
  | dispatch (cause : DispatchError)
  | notQuantized (platform : Platform)
  | noImporter (framework : Framework)
  | noExporter (platform : Platform)
  | setting (fault : SettingFault)
  | calibration (fault : CalibrationFault)
  | format (cause : FormatError α)
  | opening (path : String) (cause : FileError)
  | refused (reason : String)
  | outputIsDirectory (path : String)
  | file (cause : FileError)
  | document (cause : ReadError)

namespace PipelineError

variable {α : Type}

/-- Whether the graph is at fault, or what was to become of it. -/
def isOfGraph : PipelineError α → Bool
  | dispatch (.order _) | dispatch (.edit _) | format _ | opening .. | refused _ => true
  | _ => false

/-- Whether what the user asked for is at fault. -/
def isConfiguration : PipelineError α → Bool
  | dispatch cause => cause.isConfiguration
  | notQuantized _ | noImporter _ | noExporter _ | setting _ => true
  | calibration _ | format _ | opening .. | refused _ | outputIsDirectory _ | file _
  | document _ => false

def fault? : PipelineError α → Option SizeFault
  | format cause => cause.fault?
  | _ => none

/-- What happened, outermost first. -/
def causes : PipelineError Float32 → List String
  | dispatch cause => [cause.message]
  | notQuantized platform =>
    ["target platform " ++ platform.name ++ " is a non-quantable platform"]
  | noImporter framework =>
    ["requiring framework " ++ framework.name ++ " does not support parsing now"]
  | noExporter platform =>
    ["requiring platform " ++ platform.name ++ " does not support export now"]
  | setting fault => ["invalid quantization setting: " ++ fault.message]
  | calibration fault =>
    ["quantization needs a valid calibration source and step count: " ++ fault.message]
  | format cause => cause.reasons
  | opening path cause => ["opening native graph " ++ path, cause.message]
  | refused reason => [reason]
  | outputIsDirectory path =>
    ["file " ++ path ++ " already exists and is a directory, can not create file here"]
  | file cause => [cause.message]
  | document cause => [cause.message]

def message (e : PipelineError Float32) : String :=
  (if e.isOfGraph then "graph error: " else "") ++ ": ".intercalate e.causes

/-- The message, and behind that of a graph what it is made of. -/
def reasons (e : PipelineError Float32) : List String :=
  e.message :: if e.isOfGraph then e.causes else []

end PipelineError

end GraphDispatch
