import GraphqlOrmBackup.Json.Number

/-!
# JSON values

A JSON document as a tree.  An object has its fields in the order of the
document, which may name a field twice.
-/

namespace Json

inductive Value where
  | null
  | bool (value : Bool)
  | number (value : Number)
  | string (value : String)
  | array (items : List Value)
  | object (fields : List (String × Value))

mutual

/-- How many containers are nested in each other. -/
def Value.depth : Value → Nat
  | .array items => depthItems items + 1
  | .object fields => depthFields fields + 1
  | _ => 0

def depthItems : List Value → Nat
  | [] => 0
  | item :: items => max item.depth (depthItems items)

def depthFields : List (String × Value) → Nat
  | [] => 0
  | (_, value) :: fields => max value.depth (depthFields fields)

end

mutual

/-- The floats that occur in a value. -/
def Value.floats : Value → List Binary64
  | .number (.float x) => [x]
  | .array items => floatsItems items
  | .object fields => floatsFields fields
  | _ => []

def floatsItems : List Value → List Binary64
  | [] => []
  | item :: items => item.floats ++ floatsItems items

def floatsFields : List (String × Value) → List Binary64
  | [] => []
  | (_, value) :: fields => value.floats ++ floatsFields fields

end

end Json
