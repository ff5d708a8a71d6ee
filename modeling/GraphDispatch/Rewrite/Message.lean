import GraphDispatch.Decimal.Layout
import GraphDispatch.Rewrite.Format
import GraphDispatch.Text.Hidden
import GraphDispatch.Text.Quoted

/-!
# Texts of rewriting errors

A malformed cast target is shown as the attribute it is, with the shortest
digits of its numbers.
-/

namespace GraphDispatch

open Decimal

/-- Numbers inside a message: positional from `1e-4` to below `1e16`. -/
def messageLayout : Layout := ⟨-4, 15, false, .up⟩

def scalarText (x : Float32) : String := messageLayout.text (.ofFloat32 x)

def listText (items : List String) : String := "[" ++ ", ".intercalate items ++ "]"

def intsText (ns : List Int64) : String := listText (ns.map fun n => toString n.toInt)

def floatsText (xs : List Float32) : String := listText (xs.map scalarText)

def Elements.text : Elements Float32 → String
  | floats values => "F32(" ++ floatsText values ++ ")"
  | ints values => "I64(" ++ intsText values ++ ")"

def Tensor.text (t : Tensor Float32) : String :=
  "Tensor \x7b shape: " ++ shapeText t.shape ++ ", data: " ++ t.elements.text ++ " \x7d"

def Attribute.text : Attribute Float32 → String
  | int n => "Int(" ++ toString n.toInt ++ ")"
  | float x => "Float(" ++ scalarText x ++ ")"
  | ints ns => "Ints(" ++ intsText ns ++ ")"
  | floats xs => "Floats(" ++ floatsText xs ++ ")"
  | string s => "String(" ++ Text.quoted Text.isHidden s ++ ")"
  | tensor t => "Tensor(" ++ t.text ++ ")"

namespace RewriteError

def message : RewriteError Float32 → String
  | edit cause => cause.message
  | tensor cause => cause.message
  | vanished kind op => kind ++ " " ++ op ++ " vanished"
  | constantSlots op => "constant " ++ op ++ " must have no input and exactly one output"
  | constantWithoutValue op => "constant " ++ op ++ " does not carry any value"
  | stringConstant value => "string constants (" ++ value ++ ") are not supported"
  | castCode op code =>
    "cast " ++ op ++ " targets unknown data type code " ++ toString code.toInt
  | castName op type => "cast " ++ op ++ " targets unknown data type " ++ type
  | castTarget op target => "cast " ++ op ++ " has a malformed target " ++ target.text
  | castWithoutTarget op => "cast " ++ op ++ " has no target data type"
  | sliceMixed op => "slice " ++ op ++ " mixes attribute and input bounds"
  | sliceWithoutStarts op => "slice " ++ op ++ " has no starts"
  | sliceWithoutEnds op => "slice " ++ op ++ " has no ends"
  | sliceEnds op starts ends =>
    "slice " ++ op ++ " has " ++ toString starts ++ " starts but " ++ toString ends ++ " ends"
  | sliceAxes op starts axes =>
    "slice " ++ op ++ " has " ++ toString starts ++ " starts but " ++ toString axes ++ " axes"
  | clipMixed op => "clip " ++ op ++ " mixes attribute and input bounds"

/-- The fault that ended the program, where that is what happened. -/
def fault? {α : Type} : RewriteError α → Option SizeFault
  | tensor (.fault f) => some f
  | _ => none

end RewriteError

namespace FormatError

/-- The reasons, outermost first. -/
def reasons : FormatError Float32 → List String
  | processing command cause => ["while processing " ++ command.title, cause.message]
  | inconsistent cause => ["graph is inconsistent after formatting", cause.message]

def fault? {α : Type} : FormatError α → Option SizeFault
  | processing _ cause => cause.fault?
  | inconsistent _ => none

end FormatError

end GraphDispatch
