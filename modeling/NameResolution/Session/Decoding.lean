import NameResolution.Mangled.Reader
import NameResolution.Session.Finding

/-!
# Decoding mangled names

The types of parameters are found from the root, whatever scope the name itself is meant in, and as
soon as their names are complete. The empty text is the name of the scope's own entity.
-/

namespace NameResolution.Session

variable {L T W : Type}

/-- The entity that a name denotes from a scope; its absence is a failure. -/
def findNamed (services : Services L T W) (c : ScopeId) (n : QualifiedName) :
    Run L T W EntityId := do
  match ← findName services n c with
  | some e => return e
  | none => fail (.unresolved n.render .unknown)

/-- Reads the rest of a text from a state; the rest begins at an offset in bytes. -/
def readFrom (services : Services L T W) (text : String) :
    List Char → Nat → Mangled.State → Run L T W QualifiedName
  | [], offset, state =>
    match state.finish offset with
    | .ok n => return n
    | .error (position, reason) => fail (.malformed text position reason)
  | c :: rest, offset, state =>
    match state.step offset c with
    | .go next => readFrom services text rest (offset + c.utf8Size) next
    | .ask n next => do
      let e ← findNamed services rootScope n
      readFrom services text rest (offset + c.utf8Size) (next e)
    | .stop position reason => fail (.malformed text position reason)

/-- Reads a mangled name. -/
def readMangled (services : Services L T W) (text : String) : Run L T W QualifiedName :=
  if text.isEmpty then return QualifiedName.root
  else readFrom services text text.toList 0 {}

/-- The entity that a mangled name denotes from a scope. -/
def decode (services : Services L T W) (c : ScopeId) (text : String) : Run L T W EntityId := do
  findNamed services c (← readMangled services text)

end NameResolution.Session
