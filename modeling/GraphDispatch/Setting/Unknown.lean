import GraphDispatch.Setting.Encoding

/-!
# Unknown entries

The entries of a setting document that no field takes. A section whose default
is an empty object has entries of the user's own and is not looked into.
-/

namespace GraphDispatch

open Json

mutual
/-- The unknown entries in the section at `path`. -/
def unknownInside (path : String) (known : Value) : Value → List String
  | .object fields =>
    match known with
    | .object (k :: ks) => unknownFields (path ++ ".") (k :: ks) fields
    | _ => []
  | _ => []

def unknownFields (above : String) (known : List (String × Value)) :
    List (String × Value) → List String
  | [] => []
  | (k, v) :: rest =>
    (match known.lookup k with
      | none => [above ++ k]
      | some inner => unknownInside (above ++ k) inner v) ++ unknownFields above known rest
end

namespace Setting

/-- The fields of a setting document with their defaults. -/
def reference : List (String × Value) :=
  match Encoding.setting {} with
  | .object fields => fields
  | _ => []

/-- The dotted paths of the unknown entries, in order. -/
def unknownEntries (fields : List (String × Value)) : List String :=
  (unknownFields "" reference fields).mergeSort

end Setting

namespace SimpleSetting

def fieldNames : List String :=
  ["platform", "finetune_steps", "finetune_lr", "interested_outputs", "calibration",
    "equalization", "non_quantable_op"]

def unknownEntries (fields : List (String × Value)) : List String :=
  (fields.map (·.1)).filter (!fieldNames.contains ·)

end SimpleSetting

end GraphDispatch
