import NameResolution.Tables

/-!
# Paths

The path of an entity is read off its owners, from the entity up to the root package: every owner
adds a part in front. The root itself has the empty path, and so has a released entity. Owners are
followed for as many steps as there are slots for entities, which is enough to meet every entity
once.

A path can be shown with its signatures spelled out, each parameter by the path of its type.
-/

namespace NameResolution.Tables

variable {L T : Type}

/-- The parts from the root down to an entity, followed by `below`, for at most so many owners. -/
def pathFrom (t : Tables L T) : Nat → EntityId → QualifiedName → QualifiedName
  | 0, _, below => below
  | steps + 1, e, below =>
    if e = rootEntity then below
    else
      match t.entities.get? e with
      | none => below
      | some x =>
        match x.owner.bind t.scopes.get? with
        | none => x.part :: below
        | some s => pathFrom t steps s.entity (x.part :: below)

/-- The number of steps after which every entity has been met. -/
def reach (t : Tables L T) : Nat :=
  t.entities.slots.size + 1

/-- The name of an entity relative to the root. -/
def path (t : Tables L T) (e : EntityId) : QualifiedName :=
  t.pathFrom t.reach e []

/-- A part with its signature spelled out by `target`. -/
def showPart (target : EntityId → String) (p : NamePart) : String :=
  let showParam (q : Param) : String :=
    (if q.byReference then "&" else "") ++
      match q.entity with
      | some e => target e
      | none => "void"
  if p.params.isEmpty then p.text
  else p.text ++ "(" ++ ", ".intercalate (p.params.map showParam) ++ ")"

/-- The path of an entity with signatures spelled out, nested at most so deep. -/
def showPathWithin (t : Tables L T) : Nat → EntityId → String
  | 0, _ => ""
  | depth + 1, e =>
    match t.path e with
    | [] => "<root>"
    | parts => ".".intercalate (parts.map (showPart (showPathWithin t depth)))

/-- The path of an entity with signatures spelled out. -/
def showPath (t : Tables L T) (e : EntityId) : String :=
  t.showPathWithin t.reach e

end NameResolution.Tables
