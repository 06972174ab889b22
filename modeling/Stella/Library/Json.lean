/-! # JSON values

The values `JSON.parse` can return. An object keeps its members in the order
they were written; a member lookup reads the last one of that name, as a
parsed object does.
-/

namespace Stella

inductive Json
  | null
  | bool (value : Bool)
  | number (value : Rat)
  | string (value : String)
  | array (items : List Json)
  | object (members : List (String × Json))

namespace Json

/-- `value[name]` on an object, `undefined` (none) on anything else. -/
def member (name : String) : Json → Option Json
  | .object members => (members.reverse.find? (fun m => m.1 == name)).map Prod.snd
  | _ => none

def asString : Json → Option String
  | .string value => some value
  | _ => none

def asArray : Json → Option (List Json)
  | .array items => some items
  | _ => none

def asBool : Json → Option Bool
  | .bool value => some value
  | _ => none

def asRecord : Json → Option Json
  | .object members => some (.object members)
  | _ => none

/-- `Number.MAX_SAFE_INTEGER`. -/
def maxSafeInteger : Int := 9007199254740991

def asSafeInteger : Json → Option Int
  | .number value =>
    if value.den = 1 ∧ -maxSafeInteger ≤ value.num ∧ value.num ≤ maxSafeInteger then some value.num else none
  | _ => none

end Json

end Stella
