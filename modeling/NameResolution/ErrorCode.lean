/-!
# Error codes

Every cause of failure has a number, an entry in the registry, and a written form: the letter `E`
and at least four digits. Reading a written form is laxer than writing it: leading zeros and one
plus sign are let through, and the number has to fit in a word of 16 bits.
-/

namespace NameResolution

/-- What the registry says about a code. -/
structure ErrorCode where
  code : UInt16
  category : String
  description : String
  /-- How the error can be mended. -/
  help : String
deriving DecidableEq

namespace ErrorCode

/-! ## Written forms -/

/-- The letter `E` and the number, padded with zeros to four digits. -/
def format (code : UInt16) : String :=
  let digits := Nat.toDigits 10 code.toNat
  String.ofList ('E' :: (List.replicate (4 - digits.length) '0' ++ digits))

/-- The number that a run of digits denotes, if it is at most `limit`. -/
def ofDigits? (limit : Nat) : Nat → List Char → Option Nat
  | value, [] => some value
  | value, c :: rest =>
    let next := 10 * value + (c.toNat - '0'.toNat)
    if c.isDigit && next ≤ limit then ofDigits? limit next rest else none

/-- Reads the letter `E`, at most one plus sign, and digits. -/
def parse? (text : String) : Option UInt16 :=
  match text.toList with
  | 'E' :: '+' :: c :: rest => number (c :: rest)
  | 'E' :: c :: rest => number (c :: rest)
  | _ => none
where
  number (digits : List Char) : Option UInt16 :=
    (ofDigits? 65535 0 digits).map UInt16.ofNat

/-! ## The registry -/

/-- All codes, in increasing order. The hundreds tell the kind of failure: lookup, inheritance,
declaration, template, mangled name. -/
def registry : List ErrorCode :=
  [⟨2001, "Symbol", "Undefined symbol",
      "Check that the name is declared and its package can be loaded"⟩,
    ⟨2101, "Inheritance", "Not a type",
      "Only types can take part in inheritance queries"⟩,
    ⟨2102, "Inheritance", "Cyclic inheritance",
      "A type cannot extend itself or one of its subtypes"⟩,
    ⟨2103, "Inheritance", "Inheritance chain too deep",
      "Raise max_hierarchy_depth or flatten the hierarchy"⟩,
    ⟨2201, "Symbol", "Symbol already defined",
      "Overloads must differ in their parameter types"⟩,
    ⟨2202, "Symbol", "Symbol already owned by another scope",
      "Declare a new entity instead of inserting the same one twice"⟩,
    ⟨2301, "Template", "Ambiguous template instantiation",
      "Make the templates' accepted parameter lists mutually exclusive"⟩,
    ⟨2401, "Encoding", "Invalid mangled name",
      "Mangled names are machine generated; check for corruption"⟩]

/-- The entry of a code. -/
def get? (code : UInt16) : Option ErrorCode :=
  registry.find? (·.code = code)

/-- The entry of a written code. -/
def ofString? (text : String) : Option ErrorCode :=
  (parse? text).bind get?

/-- Whether a code is registered. -/
def isRegistered (code : UInt16) : Bool :=
  (get? code).isSome

/-- The entries from `first` to `last`, both included, in increasing order. -/
def range (first last : UInt16) : List ErrorCode :=
  registry.filter fun entry => first ≤ entry.code && entry.code ≤ last

/-- An entry on one line. -/
def render (entry : ErrorCode) : String :=
  format entry.code ++ " [" ++ entry.category ++ "]: " ++ entry.description

/-- The registry is in increasing order, without repetition. -/
theorem registry_pairwise : registry.Pairwise (·.code < ·.code) := by decide

end ErrorCode

end NameResolution
