import CixCache.Name.Bytes

/-!
Contract: parsed JSON trees, as the vendored parser hands them out.

Owns: `JsonValue`, the member lookup and the string accessor.

Does not own: parsing and writing.
-/

namespace CixCache

/-- `struct json_value` with its numbers as the lexemes they were read from; an object keeps its
members in source order. -/
inductive JsonValue where
  | null
  | boolean (value : Bool)
  | number (text : Bytes)
  | string (text : Bytes)
  | array (items : List JsonValue)
  | object (members : List (Bytes × JsonValue))

/-- The first member of that key; none when the value is no object. -/
def jsonObjectGet (value : Option JsonValue) (key : Bytes) : Option JsonValue :=
  match value with
  | some (.object members) => members.lookup key
  | _ => none

def jsonAsString (value : Option JsonValue) : Option Bytes :=
  match value with
  | some (.string text) => some text
  | _ => none

end CixCache
