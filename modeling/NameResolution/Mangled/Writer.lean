import NameResolution.Mangled.Sentinel
import NameResolution.Path

/-!
# Writing mangled names

A parameter is written as the path of its type, itself mangled, and void as nothing. The arguments
of a pattern part are written as they stand, each by value. A part without parameters has no group.
-/

namespace NameResolution.Mangled

/-- The text of a part, its sentinels escaped. -/
def writeText (text : String) : List Char :=
  text.toList.flatMap fun c => if isSentinel c then [escape, c] else [c]

/-- The written parameters of a part, as a group. -/
def writeGroup : List (List Char) → List Char
  | [] => []
  | params => opening :: params.flatten ++ [closing]

/-- A parameter after its separator, with the text that `pathText` gives for its type. -/
def writeParam (pathText : EntityId → List Char) (p : Param) : List Char :=
  (if p.byReference then referenceComma else comma) ::
    match p.entity with
    | some e => pathText e
    | none => []

mutual

/-- A part of a name. -/
def writePart (pathText : EntityId → List Char) : NamePart → List Char
  | .simple text params => writeText text ++ writeGroup (params.map (writeParam pathText))
  | .pattern text arguments => writeText text ++ writeGroup (writeArguments pathText arguments)

/-- The parts of a name. -/
def writeParts (pathText : EntityId → List Char) : List NamePart → List (List Char)
  | [] => []
  | p :: ps => writePart pathText p :: writeParts pathText ps

/-- Arguments after their separators. -/
def writeArguments (pathText : EntityId → List Char) : List (List NamePart) → List (List Char)
  | [] => []
  | n :: ns =>
    (comma :: List.intercalate [dot] (writeParts pathText n)) :: writeArguments pathText ns

end

/-- A name, with the texts that `pathText` gives for the types of its parameters. -/
def writeName (pathText : EntityId → List Char) (n : QualifiedName) : List Char :=
  List.intercalate [dot] (n.map (writePart pathText))

end NameResolution.Mangled

namespace NameResolution.Tables

variable {L T : Type}

/-- The mangled path of an entity, its parameters nested at most so deep. -/
def mangledPath (t : Tables L T) : Nat → EntityId → List Char
  | 0, _ => []
  | depth + 1, e => Mangled.writeName (t.mangledPath depth) (t.path e)

/-- A name, mangled. As long as no entity is a parameter of its own path, there are no deeper
nestings than entities. -/
def mangle (t : Tables L T) (n : QualifiedName) : String :=
  String.ofList (Mangled.writeName (t.mangledPath t.reach) n)

/-- The path of an entity, mangled. -/
def mangleEntity (t : Tables L T) (e : EntityId) : String :=
  t.mangle (t.path e)

end NameResolution.Tables
