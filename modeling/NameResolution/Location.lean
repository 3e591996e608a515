import NameResolution.Text.Inspect

/-!
# Source locations

A location is a token that a compiler attaches to declarations and requests. It is carried into
errors and diagnostics and is never interpreted here; the one distinguished value is `unknown`.
-/

namespace NameResolution

/-- A position in a source file. -/
structure Location where
  /-- The number of the file; the largest number stands for no file. -/
  file : UInt32
  /-- The line, counted from one. -/
  line : UInt32
  /-- The column, counted from one. -/
  column : UInt32
  /-- The offset in the file, in bytes. -/
  offset : UInt32
deriving DecidableEq

namespace Location

/-- The location of what has none. -/
def unknown : Location := ⟨0xffffffff, 0, 0, 0⟩

/-- Whether the location is in a file. -/
def isValid (l : Location) : Bool :=
  l.file != 0xffffffff

/-- Locations are ordered by file, then line, then column, then offset. -/
instance : Ord Location where
  compare a b :=
    (compare a.file b.file).then <| (compare a.line b.line).then <|
      (compare a.column b.column).then (compare a.offset b.offset)

/-- A location in a file is written as file, line and column. -/
def render (l : Location) : String :=
  if l.isValid then s!"{l.file}:{l.line}:{l.column}" else "<unknown>"

/-- All four numbers, for inspection. -/
def inspect (l : Location) : String :=
  Text.inspectRecord "SourceLocation"
    [("file_id", toString l.file), ("line", toString l.line), ("column", toString l.column),
      ("byte_offset", toString l.offset)]

/-- The unknown location is in no file. -/
theorem isValid_unknown : unknown.isValid = false := rfl

end Location

end NameResolution
