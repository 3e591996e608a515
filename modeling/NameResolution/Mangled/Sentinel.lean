/-!
# Sentinels

A mangled name is one flat text in which control characters carry the structure, so that no
character is reserved in the texts of names:

    name  := part (dot part)*
    part  := text [open (separator parameter)+ close]
    separator := comma | referenceComma
    parameter := nothing, for void | name

A sentinel that belongs to a text is written after `escape`.
-/

namespace NameResolution.Mangled

/-- Stands between the parts of a name. -/
def dot : Char := '\x01'

/-- Opens the signature of a part. -/
def opening : Char := '\x02'

/-- Closes the signature of a part. -/
def closing : Char := '\x03'

/-- Comes before a parameter taken by value. -/
def comma : Char := '\x04'

/-- Comes before a parameter taken by reference. -/
def referenceComma : Char := '\x05'

/-- Comes before a sentinel that belongs to a text. -/
def escape : Char := '\x10'

/-- The characters that carry structure. -/
def sentinels : List Char :=
  [dot, opening, closing, comma, referenceComma, escape]

/-- Whether a character carries structure. -/
def isSentinel (c : Char) : Bool :=
  sentinels.contains c

end NameResolution.Mangled
