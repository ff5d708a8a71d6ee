import GraphDispatch.Json.Lexer
import GraphDispatch.Json.Outline

/-!
# Reading JSON texts

The outline of a text is put together by an automaton with a stack of open
arrays and objects. Where the text can not go on, all of them stay open.
-/

namespace GraphDispatch.Json

namespace Outline

/-- How deep arrays and objects may be nested. -/
def depthLimit : Nat := 127

/-- An array before its next item, or an object before the value of `key`. Items
and fields are latest first. -/
inductive Frame where
  | array (depth : Nat) (items : List Outline)
  | object (depth : Nat) (fields : List (Key × Outline)) (key : Key)

def Frame.depth : Frame → Nat
  | .array depth _ | .object depth _ _ => depth

/-- What the lexemes read so far lead to; `above` are the arrays and objects around
the place that is reached, the innermost first. -/
inductive State where
  | value (above : List Frame)
  | firstItem (above : List Frame)
  | firstKey (above : List Frame)
  | nextKey (fields : List (Key × Outline)) (above : List Frame)
  | colon (fields : List (Key × Outline)) (key : Key) (above : List Frame)
  | afterItem (items : List Outline) (above : List Frame)
  | afterField (fields : List (Key × Outline)) (above : List Frame)
  | complete (o : Outline)
  | overrun (o : Outline)
  | stopped (o : Outline)

/-- The depth of an array or object with these around it. -/
def depthIn (above : List Frame) : Nat := (above.head?.map Frame.depth).getD 0 + 1

/-- An array or object at this depth; one that is nested too deep can only be
skipped. -/
def nested (depth : Nat) (o : Outline) (stop : Option Fault) : Outline :=
  if depth ≤ depthLimit then o else .broken false ⟨.malformed, stop⟩

def arrayAt (depth : Nat) (items : List Outline) (stop : Option Fault) : Outline :=
  nested depth (.array items.reverse stop) stop

def objectAt (depth : Nat) (fields : List (Key × Outline)) (stop : Option Fault) : Outline :=
  nested depth (.object fields.reverse stop) stop

def deliver (o : Outline) : List Frame → State
  | [] => .complete o
  | .array _ items :: above => .afterItem (o :: items) above
  | .object _ fields key :: above => .afterField ((key, o) :: fields) above

/-- The outline of a text that ends, for the fault `f`, in or behind `o`. -/
def leaveOpen (f : Fault) (o : Outline) : List Frame → Outline
  | [] => o
  | .array depth items :: above => leaveOpen f (arrayAt depth (o :: items) (some f)) above
  | .object depth fields key :: above =>
    leaveOpen f (objectAt depth ((key, o) :: fields) (some f)) above

/-- The outline of a text that does not go on, for the fault `f`. -/
def State.halt (f : Fault) : State → Outline
  | .value above => leaveOpen f (.missing f) above
  | .firstItem above => leaveOpen f (arrayAt (depthIn above) [] (some f)) above
  | .firstKey above => leaveOpen f (objectAt (depthIn above) [] (some f)) above
  | .nextKey fields above =>
    let fields := (.broken (.stop f), .missing f) :: fields
    leaveOpen f (objectAt (depthIn above) fields (some f)) above
  | .colon fields key above =>
    let fields := (key, .missing f) :: fields
    leaveOpen f (objectAt (depthIn above) fields (some f)) above
  | .afterItem items above => leaveOpen f (arrayAt (depthIn above) items (some f)) above
  | .afterField fields above => leaveOpen f (objectAt (depthIn above) fields (some f)) above
  | .complete o | .overrun o | .stopped o => o

/-- A state that allows nothing of what comes next. -/
def State.refuse (s : State) : State := .stopped (s.halt .malformed)

def scalar? : Token → Option Outline
  | .null => some .null
  | .bool b => some (.bool b)
  | .number n => some (.number n)
  | .string s => some (.string s)
  | _ => none

def beginValue (above : List Frame) (l : Lexeme) : State :=
  match l with
  | .token .beginArray => .firstItem above
  | .token .beginObject => .firstKey above
  | .token t =>
    match scalar? t with
    | some o => deliver o above
    | none => .refuse (.value above)
  | .broken isString b =>
    match b.skipped with
    | none => deliver (.broken isString b) above
    | some f => .stopped (leaveOpen f (.broken isString b) above)
  | .stray => .refuse (.value above)

/-- Goes on behind the name of a field that can not be read. -/
def breakKey (fields : List (Key × Outline)) (b : Break) (above : List Frame) : State :=
  match b.skipped with
  | none => .colon fields (.broken b) above
  | some f => .stopped (State.halt f (.colon fields (.broken b) above))

def step : State → Lexeme → State
  | .value above, l => beginValue above l
  | .firstItem above, .token .endArray => deliver (arrayAt (depthIn above) [] none) above
  | .firstItem above, l => beginValue (.array (depthIn above) [] :: above) l
  | .firstKey above, .token .endObject => deliver (objectAt (depthIn above) [] none) above
  | .firstKey above, .token (.string s) => .colon [] (.name s) above
  | .firstKey above, .broken true b => breakKey [] b above
  | .nextKey fields above, .token (.string s) => .colon fields (.name s) above
  | .nextKey fields above, .broken true b => breakKey fields b above
  | .colon fields key above, .token .colon =>
    .value (.object (depthIn above) fields key :: above)
  | .afterItem items above, .token .comma => .value (.array (depthIn above) items :: above)
  | .afterItem items above, .token .endArray =>
    deliver (arrayAt (depthIn above) items none) above
  | .afterField fields above, .token .comma => .nextKey fields above
  | .afterField fields above, .token .endObject =>
    deliver (objectAt (depthIn above) fields none) above
  | .complete o, _ => .overrun o
  | .overrun o, _ => .overrun o
  | .stopped o, _ => .stopped o
  | s, _ => s.refuse

/-- The fault of what stands behind a value. -/
def State.rest : State → Option Fault
  | .overrun _ => some .malformed
  | _ => none

/-- The outline of the value in a text, and the fault of what follows it. -/
def ofSymbols (text : List Symbol) : Outline × Option Fault :=
  let s := (Lexer.lexemes text).foldl step (.value [])
  (s.halt .incomplete, s.rest)

end Outline

namespace Value

/-- The value that a text denotes. -/
def ofSymbols (text : List Symbol) : Except Fault Value := do
  let (o, rest) := Outline.ofSymbols text
  let v ← o.value
  close rest
  return v

def ofText (text : String) : Except Fault Value := ofSymbols (text.toList.map some)

end Value

end GraphDispatch.Json
