import NameResolution.Location
import NameResolution.Name

/-!
# Entities and declarations

An entity is what a scope can hold: a type, a function, a variable, a thread marker or a package.
Types and packages have a scope of their own. A declaration describes an entity that does not exist
yet; the loader of a package is a value of a type that is left open.
-/

namespace NameResolution

/-- What an entity is. -/
inductive EntityKind where
  /-- A type with its node in the inheritance forest and the scope of its members. -/
  | type (node : NodeId) (members : ScopeId)
  | function (result : Param)
  | var (type : Param)
  /-- A name for a thread that code can be bound to. -/
  | thread
  | package (scope : ScopeId)
deriving DecidableEq

namespace EntityKind

/-- The word for a kind. -/
def word : EntityKind → String
  | type .. => "type"
  | function _ => "function"
  | var _ => "variable"
  | thread => "thread"
  | package _ => "package"

/-- The scope that an entity of this kind holds. -/
def scope? : EntityKind → Option ScopeId
  | type _ members => some members
  | package scope => some scope
  | _ => none

/-- The node of a type. -/
def node? : EntityKind → Option NodeId
  | type node _ => some node
  | _ => none

end EntityKind

/-- A declared thing. -/
structure Entity where
  /-- The last part of its path. -/
  name : String
  /-- The signature that tells it from others of its name. -/
  params : List Param
  kind : EntityKind
  /-- The scope that it was put into. -/
  owner : Option ScopeId
  location : Location
deriving DecidableEq

/-- The part under which an entity is found in its owner. -/
def Entity.part (e : Entity) : NamePart :=
  .simple e.name e.params

/-- What a declaration declares. -/
inductive DeclarationKind (Loader : Type) where
  /-- A type; its supertype may be left undeclared. -/
  | type (parent : Option EntityId)
  | function (result : Param)
  | var (type : Param)
  | thread
  /-- A package; one with a loader is filled on demand. -/
  | package (loader : Option Loader)

/-- A description of an entity. -/
structure Declaration (Loader : Type) where
  name : String
  params : List Param
  kind : DeclarationKind Loader
  location : Location

namespace Declaration

variable {L : Type}

/-- The entity that a declaration describes, with what its kind refers to. It has no owner yet. -/
def toEntity (d : Declaration L) (kind : EntityKind) : Entity :=
  { name := d.name, params := d.params, kind, owner := none, location := d.location }

/-- What a declaration declares, for inspection. -/
def inspectKind : DeclarationKind L → String
  | .type parent =>
    Text.inspectRecord "Type" [("super_type", Text.inspectOption (parent.map Handle.inspect))]
  | .function result => Text.inspectRecord "Function" [("result", result.inspect)]
  | .var type => Text.inspectRecord "Variable" [("ty", type.inspect)]
  | .thread => "ThreadMarker"
  | .package loader => Text.inspectRecord "Package" [("lazy", Text.inspectBool loader.isSome)]

/-- The declaration for inspection. -/
def inspect (d : Declaration L) : String :=
  Text.inspectRecord "Declaration"
    [("name", Text.quote d.name), ("params", Text.inspectList (d.params.map Param.inspect)),
      ("kind", inspectKind d.kind), ("location", d.location.inspect)]

end Declaration

end NameResolution
