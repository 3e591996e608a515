/-!
# JSON values

A JSON value as it stands in a text, with as much of it as reading a record needs. Strings may hold
escapes that pair to no character, and numbers may be no word; such a string or number is still a
value, but one that nothing can be read from.

Objects are read by the names of their fields (`record?`): fields that are not asked for are passed
over, those that are must stand there once. An array may stand for an object, its items being the
fields in order.
-/

namespace NameResolution.Json

/-- A value in a JSON text. -/
inductive Value where
  | null
  | bool (b : Bool)
  /-- A number, and its value if it is written with digits alone. -/
  | number (n : Option Nat)
  /-- A string, and its text if every escape in it stands for a character. -/
  | string (s : Option String)
  | array (items : List Value)
  | object (fields : List (Option String × Value))

/-- A field that a record is read by. -/
structure Field where
  name : String
  /-- Whether the field has to be there; a missing one that need not reads as `null`. -/
  isRequired : Bool := true

namespace Value

/-- The value of a field, if the object has it exactly once, or may lack it and does. -/
def field? (fields : List (Option String × Value)) (f : Field) : Option Value :=
  match fields.filter (·.1 = some f.name) with
  | [(_, v)] => some v
  | [] => if f.isRequired then none else some .null
  | _ => none

/-- The fields of a record in the order in which they are asked for. -/
def record? (asked : List Field) : Value → Option (List Value)
  | .array items => if items.length = asked.length then some items else none
  | .object fields =>
    if fields.all (·.1.isSome) then asked.mapM (field? fields) else none
  | _ => none

/-- A truth value. -/
def bool? : Value → Option Bool
  | .bool b => some b
  | _ => none

/-- A text. -/
def string? : Value → Option String
  | .string s => s
  | _ => none

/-- A number below 2 ^ 32. -/
def word? : Value → Option Nat
  | .number (some n) => if n < UInt32.size then some n else none
  | _ => none

end Value

end NameResolution.Json
