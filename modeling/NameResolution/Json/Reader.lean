import NameResolution.Json.Value

/-!
# Reading JSON

The grammar is the strict one: four blank characters, no comments, no comma before a closing
bracket, no superfluous zero, no control character in a string. Reading a value takes fuel, and
`read` gives as much as no text can use up, since every step of a value takes at least one
character.
-/

namespace NameResolution.Json

/-- The characters that may stand between tokens. -/
def isBlank (c : Char) : Bool :=
  c == ' ' || c == '\n' || c == '\t' || c == '\r'

/-- The text after leading blanks. -/
def skipBlank (text : List Char) : List Char :=
  text.dropWhile isBlank

/-! ## Strings -/

/-- A character of a string, or the code unit that a numeric escape gives. -/
inductive Unit16 where
  | char (c : Char)
  | escaped (n : Nat)

/-- The value of a hexadecimal digit. -/
def hexDigit? (c : Char) : Option Nat :=
  if c.isDigit then some (c.toNat - '0'.toNat)
  else if 'a' ≤ c && c ≤ 'f' then some (c.toNat - 'a'.toNat + 10)
  else if 'A' ≤ c && c ≤ 'F' then some (c.toNat - 'A'.toNat + 10)
  else none

/-- The value of four hexadecimal digits. -/
def hex4? (a b c d : Char) : Option Nat := do
  let a ← hexDigit? a
  let b ← hexDigit? b
  let c ← hexDigit? c
  let d ← hexDigit? d
  return ((a * 16 + b) * 16 + c) * 16 + d

/-- What a letter after a backslash stands for. -/
def letterEscape? : Char → Option Char
  | '"' => some '"'
  | '\\' => some '\\'
  | '/' => some '/'
  | 'b' => some '\x08'
  | 'f' => some '\x0c'
  | 'n' => some '\n'
  | 'r' => some '\r'
  | 't' => some '\t'
  | _ => none

/-- The units of a string whose opening quote has been read, and the text after its closing one. -/
def readUnits : List Char → Option (List Unit16 × List Char)
  | [] => none
  | '"' :: rest => some ([], rest)
  | '\\' :: 'u' :: a :: b :: c :: d :: rest => do
    let n ← hex4? a b c d
    let (units, rest) ← readUnits rest
    return (.escaped n :: units, rest)
  | '\\' :: e :: rest => do
    let c ← letterEscape? e
    let (units, rest) ← readUnits rest
    return (.char c :: units, rest)
  | c :: rest => do
    if c.toNat < 0x20 || c = '\\' then none
    let (units, rest) ← readUnits rest
    return (.char c :: units, rest)

/-- The characters that units stand for. A pair of surrogates is one character, and a surrogate
outside a pair is none. -/
def decodeUnits : List Unit16 → Option (List Char)
  | [] => some []
  | .char c :: rest => (decodeUnits rest).map (c :: ·)
  | .escaped n :: rest =>
    if 0xd800 ≤ n && n < 0xdc00 then
      match rest with
      | .escaped m :: rest =>
        if 0xdc00 ≤ m && m < 0xe000 then
          let c := Char.ofNat (0x10000 + (n - 0xd800) * 0x400 + (m - 0xdc00))
          (decodeUnits rest).map (c :: ·)
        else none
      | _ => none
    else if 0xdc00 ≤ n && n < 0xe000 then none
    else (decodeUnits rest).map (Char.ofNat n :: ·)

/-- The text of a string whose opening quote has been read, and the text after its closing one. -/
def readString (text : List Char) : Option (Option String × List Char) :=
  (readUnits text).map fun r => ((decodeUnits r.1).map String.ofList, r.2)

/-! ## Numbers -/

/-- The digits at the front of a text, of which there has to be one, and the rest. -/
def readDigits (text : List Char) : Option (List Char × List Char) :=
  let digits := text.takeWhile Char.isDigit
  if digits.isEmpty then none else some (digits, text.dropWhile Char.isDigit)

/-- The whole part of a number: a single zero, or digits that do not begin with one. -/
def readWhole : List Char → Option (List Char × List Char)
  | '0' :: rest =>
    match rest with
    | c :: _ => if c.isDigit then none else some (['0'], rest)
    | [] => some (['0'], rest)
  | text => readDigits text

/-- The fraction of a number, if it has one; whether it has, and the rest. -/
def readFraction : List Char → Option (Bool × List Char)
  | '.' :: rest => (readDigits rest).map fun r => (true, r.2)
  | text => some (false, text)

/-- The exponent of a number, if it has one; whether it has, and the rest. -/
def readExponent : List Char → Option (Bool × List Char)
  | 'e' :: '+' :: rest => (readDigits rest).map fun r => (true, r.2)
  | 'e' :: '-' :: rest => (readDigits rest).map fun r => (true, r.2)
  | 'e' :: rest => (readDigits rest).map fun r => (true, r.2)
  | 'E' :: '+' :: rest => (readDigits rest).map fun r => (true, r.2)
  | 'E' :: '-' :: rest => (readDigits rest).map fun r => (true, r.2)
  | 'E' :: rest => (readDigits rest).map fun r => (true, r.2)
  | text => some (false, text)

/-- A number without its sign, and the rest. -/
def readUnsigned (text : List Char) : Option (Option Nat × List Char) := do
  let (whole, rest) ← readWhole text
  let (fraction, rest) ← readFraction rest
  let (exponent, rest) ← readExponent rest
  let value := whole.foldl (fun n c => 10 * n + (c.toNat - '0'.toNat)) 0
  return (if fraction || exponent then none else some value, rest)

/-! ## Values -/

mutual

/-- The value at the front of a text, and the rest. -/
def readValue : Nat → List Char → Option (Value × List Char)
  | 0, _ => none
  | fuel + 1, text =>
    match skipBlank text with
    | 'n' :: 'u' :: 'l' :: 'l' :: rest => some (.null, rest)
    | 't' :: 'r' :: 'u' :: 'e' :: rest => some (.bool true, rest)
    | 'f' :: 'a' :: 'l' :: 's' :: 'e' :: rest => some (.bool false, rest)
    | '"' :: rest => (readString rest).map fun r => (.string r.1, r.2)
    | '-' :: rest => (readUnsigned rest).map fun r => (.number none, r.2)
    | '[' :: rest =>
      match skipBlank rest with
      | ']' :: rest => some (.array [], rest)
      | rest => (readItems fuel rest).map fun r => (.array r.1, r.2)
    | '\x7b' :: rest =>
      match skipBlank rest with
      | '\x7d' :: rest => some (.object [], rest)
      | rest => (readFields fuel rest).map fun r => (.object r.1, r.2)
    | rest => (readUnsigned rest).map fun r => (.number r.1, r.2)

/-- The items of an array up to its closing bracket, and the rest. -/
def readItems : Nat → List Char → Option (List Value × List Char)
  | 0, _ => none
  | fuel + 1, text => do
    let (v, rest) ← readValue fuel text
    match skipBlank rest with
    | ',' :: rest =>
      let (vs, rest) ← readItems fuel rest
      return (v :: vs, rest)
    | ']' :: rest => return ([v], rest)
    | _ => none

/-- The fields of an object up to its closing brace, and the rest. -/
def readFields : Nat → List Char → Option (List (Option String × Value) × List Char)
  | 0, _ => none
  | fuel + 1, text =>
    match skipBlank text with
    | '"' :: rest => do
      let (name, rest) ← readString rest
      match skipBlank rest with
      | ':' :: rest =>
        let (v, rest) ← readValue fuel rest
        match skipBlank rest with
        | ',' :: rest =>
          let (fs, rest) ← readFields fuel rest
          return ((name, v) :: fs, rest)
        | '\x7d' :: rest => return ([(name, v)], rest)
        | _ => none
      | _ => none
    | _ => none

end

/-- The value that a whole text denotes. -/
def read (text : List Char) : Option Value :=
  match readValue (2 * text.length + 2) text with
  | some (v, rest) => if (skipBlank rest).isEmpty then some v else none
  | none => none

end NameResolution.Json
