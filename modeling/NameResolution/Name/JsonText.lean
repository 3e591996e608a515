import NameResolution.Json.Reader
import NameResolution.Name

/-!
# Names as JSON

A name is written compactly: records as objects with their fields in a fixed order, a part as an
object whose only field tells its form, void as `null`. Reading is more liberal, as `Json.Value`
says, but bounded: used values may be nested in each other `nestingLimit` deep and no deeper.
-/

namespace NameResolution

open Json (Value)

/-! ## Writing -/

namespace Json

/-- How a character is written in a string. -/
def escape (c : Char) : List Char :=
  match c with
  | '"' => ['\\', '"']
  | '\\' => ['\\', '\\']
  | '\x08' => ['\\', 'b']
  | '\x0c' => ['\\', 'f']
  | '\n' => ['\\', 'n']
  | '\r' => ['\\', 'r']
  | '\t' => ['\\', 't']
  | c =>
    if c.toNat < 0x20 then
      ['\\', 'u', '0', '0', Nat.digitChar (c.toNat / 16), Nat.digitChar (c.toNat % 16)]
    else [c]

/-- A string. -/
def writeString (s : String) : List Char :=
  ['"'] ++ s.toList.flatMap escape ++ ['"']

/-- An array of written values. -/
def writeArray (items : List (List Char)) : List Char :=
  ['['] ++ NamePart.join "," items ++ [']']

/-- An object of written values. -/
def writeObject (fields : List (String × List Char)) : List Char :=
  ['\x7b'] ++ NamePart.join "," (fields.map fun f => writeString f.1 ++ [':'] ++ f.2) ++ ['\x7d']

end Json

/-- A handle as JSON. -/
def Handle.toJson {kind : Kind} (h : Handle kind) : List Char :=
  Json.writeObject
    [("index", Nat.toDigits 10 h.index), ("generation", Nat.toDigits 10 h.generation.toNat)]

/-- A parameter as JSON. -/
def Param.toJson (p : Param) : List Char :=
  Json.writeObject
    [("entity", match p.entity with
      | some e => e.toJson
      | none => "null".toList),
      ("is_reference", (if p.byReference then "true" else "false").toList)]

mutual

/-- A part as JSON. -/
def NamePart.toJson : NamePart → List Char
  | .simple text params =>
    Json.writeObject [("Simple", Json.writeObject
      [("text", Json.writeString text), ("params", Json.writeArray (params.map Param.toJson))])]
  | .pattern text arguments =>
    Json.writeObject [("Recursive", Json.writeObject
      [("text", Json.writeString text),
        ("nested", Json.writeArray (NamePart.namesToJson arguments))])]

/-- The parts of a name as JSON. -/
def NamePart.partsToJson : List NamePart → List (List Char)
  | [] => []
  | p :: ps => p.toJson :: NamePart.partsToJson ps

/-- Names as JSON. -/
def NamePart.namesToJson : List (List NamePart) → List (List Char)
  | [] => []
  | n :: ns =>
    Json.writeObject [("parts", Json.writeArray (NamePart.partsToJson n))] ::
      NamePart.namesToJson ns

end

/-- A name as JSON. -/
def QualifiedName.toJson (n : QualifiedName) : String :=
  String.ofList (Json.writeObject [("parts", Json.writeArray (NamePart.partsToJson n))])

/-! ## Reading

The number that each of these takes is the number of arrays and objects that may still be entered.
-/

/-- How deep the arrays and objects that are read from may be nested. -/
def nestingLimit : Nat := 127

/-- A handle. -/
def Handle.ofJson? {kind : Kind} : Nat → Value → Option (Handle kind)
  | 0, _ => none
  | _ + 1, v => do
    match ← v.record? [⟨"index", true⟩, ⟨"generation", true⟩] with
    | [i, g] => return ⟨← i.word?, UInt32.ofNat (← g.word?)⟩
    | _ => none

/-- A parameter; a missing entity is void. -/
def Param.ofJson? : Nat → Value → Option Param
  | 0, _ => none
  | room + 1, v => do
    match ← v.record? [⟨"entity", false⟩, ⟨"is_reference", true⟩] with
    | [.null, r] => return ⟨none, ← r.bool?⟩
    | [e, r] => return ⟨some (← Handle.ofJson? room e), ← r.bool?⟩
    | _ => none

/-- The items of an array. -/
def Json.arrayOf? {α : Type} (item : Value → Option α) : Value → Option (List α)
  | .array items => items.mapM item
  | _ => none

mutual

/-- A name. -/
def NamePart.nameOfJson? : Nat → Value → Option (List NamePart)
  | 0, _ => none
  | room + 1, v => do
    match ← v.record? [⟨"parts", true⟩] with
    | [parts] => NamePart.partsOfJson? room parts
    | _ => none

/-- The parts of a name. -/
def NamePart.partsOfJson? : Nat → Value → Option (List NamePart)
  | 0, _ => none
  | room + 1, v => Json.arrayOf? (NamePart.ofJson? room) v

/-- A part: an object whose only field tells the form of the part. -/
def NamePart.ofJson? : Nat → Value → Option NamePart
  | 0, _ => none
  | room + 1, v =>
    match v with
    | .object [(some "Simple", body)] => NamePart.simpleOfJson? room body
    | .object [(some "Recursive", body)] => NamePart.patternOfJson? room body
    | _ => none

/-- A simple part. -/
def NamePart.simpleOfJson? : Nat → Value → Option NamePart
  | 0, _ => none
  | room + 1, v => do
    match ← v.record? [⟨"text", true⟩, ⟨"params", true⟩] with
    | [text, params] =>
      return .simple (← text.string?) (← NamePart.paramsOfJson? room params)
    | _ => none

/-- A signature. -/
def NamePart.paramsOfJson? : Nat → Value → Option (List Param)
  | 0, _ => none
  | room + 1, v => Json.arrayOf? (Param.ofJson? room) v

/-- A pattern part. -/
def NamePart.patternOfJson? : Nat → Value → Option NamePart
  | 0, _ => none
  | room + 1, v => do
    match ← v.record? [⟨"text", true⟩, ⟨"nested", true⟩] with
    | [text, nested] =>
      return .pattern (← text.string?) (← NamePart.namesOfJson? room nested)
    | _ => none

/-- The arguments of a pattern part. -/
def NamePart.namesOfJson? : Nat → Value → Option (List (List NamePart))
  | 0, _ => none
  | room + 1, v => Json.arrayOf? (NamePart.nameOfJson? room) v

end

/-- The name that a JSON text denotes. -/
def QualifiedName.ofJson? (text : String) : Option QualifiedName := do
  NamePart.nameOfJson? nestingLimit (← Json.read text.toList)

end NameResolution
