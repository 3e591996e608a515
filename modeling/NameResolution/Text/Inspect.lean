import NameResolution.Text.Quoted

/-!
# Inspection texts

The texts under which values are shown for inspection: a record is its name and its fields between
braces, a list its items between brackets, and an optional value is `None` or `Some` of a value.
-/

namespace NameResolution.Text

/-- A record with its fields in order. -/
def inspectRecord (name : String) (fields : List (String × String)) : String :=
  let shown := fields.map fun field => field.1 ++ ": " ++ field.2
  name ++ " \x7b " ++ ", ".intercalate shown ++ " \x7d"

/-- A list of items. -/
def inspectList (items : List String) : String :=
  "[" ++ ", ".intercalate items ++ "]"

/-- A value that may be missing. -/
def inspectOption : Option String → String
  | none => "None"
  | some value => "Some(" ++ value ++ ")"

/-- A truth value. -/
def inspectBool (b : Bool) : String :=
  if b then "true" else "false"

end NameResolution.Text
