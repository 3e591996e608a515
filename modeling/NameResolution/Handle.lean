/-!
# Handles

Values live in the slots of tables and are referred to by handles: the position of a slot and the
generation of the value in it. Handles of different kinds have different types, so they cannot be
mixed up.
-/

namespace NameResolution

/-- What a handle refers to. -/
inductive Kind where
  | entity
  | scope
  | node
deriving DecidableEq

/-- The word under which handles of a kind are written. -/
def Kind.word : Kind → String
  | .entity => "EntityId"
  | .scope => "ContainerId"
  | .node => "TypeNodeId"

/-- A reference to a value of a table. -/
structure Handle (kind : Kind) where
  /-- The position of the slot. It is a number here, and cut off to a word of 32 bits where handles
  are kept in memory: the two agree in tables of at most `2 ^ 32` slots. -/
  index : Nat
  /-- How often the slot had been emptied when the value was put in, as a word. -/
  generation : UInt32
deriving DecidableEq

/-- Handles of entities. -/
abbrev EntityId := Handle .entity

/-- Handles of scopes. -/
abbrev ScopeId := Handle .scope

/-- Handles of nodes of the inheritance forest. -/
abbrev NodeId := Handle .node

namespace Handle

variable {kind : Kind}

/-- Handles are ordered by position, then by generation. -/
instance : Ord (Handle kind) where
  compare a b := (compare a.index b.index).then (compare a.generation b.generation)

/-- The handle in messages: its kind and position. -/
def render (h : Handle kind) : String :=
  kind.word ++ s!"({h.index})"

/-- The handle in full, for inspection. -/
def inspect (h : Handle kind) : String :=
  kind.word ++ s!"({h.index}v{h.generation})"

end Handle

end NameResolution
