import NameResolution.Name

/-!
# Dotted names

The plainest written form of a name: texts with dots between them. Nothing else has a meaning in
it, so every text can be read; the empty text is the root, and a dot at an end makes an empty part.
-/

namespace NameResolution

/-- The pieces of a text between the occurrences of `separator`. -/
def pieces (separator : Char) : List Char → List (List Char)
  | [] => [[]]
  | c :: rest =>
    if c = separator then [] :: pieces separator rest
    else
      match pieces separator rest with
      | [] => [[c]]
      | p :: ps => (c :: p) :: ps

/-- The name that a dotted text denotes. -/
def QualifiedName.ofDotted (source : List Char) : QualifiedName :=
  if source = [] then root
  else (pieces '.' source).map fun text => .simple (String.ofList text) []

end NameResolution
