import NameResolution.Config
import NameResolution.Entity
import NameResolution.Forest
import NameResolution.Scope

/-!
# The tables of a session

Entities, their scopes and the nodes of types live in three tables that refer to each other. The
changes made here are those that no single table could make: a declaration takes a slot in each
table that its kind needs, putting an entity into a scope records it on both sides, and discarding
an entity gives all its slots back.
-/

namespace NameResolution

/-- The three tables. -/
structure Tables (L T : Type) where
  entities : SlotTable .entity Entity := {}
  scopes : SlotTable .scope (Scope L T) := {}
  forest : Forest
  config : Config

/-- The scope of the root package: the first of its table. -/
def rootScope : ScopeId := ⟨0, 0⟩

/-- The root package: the first of its table. -/
def rootEntity : EntityId := ⟨0, 0⟩

namespace Tables

variable {L T : Type}

/-- Tables that hold the root package alone. -/
def start (config : Config) : Tables L T :=
  { entities := SlotTable.insert {}
      { name := "", params := [], kind := .package rootScope, owner := none, location := .unknown }
    scopes := SlotTable.insert {} { entity := rootEntity }
    forest := { maxDepth := config.maxDepth }
    config }

/-! ## Reading -/

/-- An entity; a released one is a fault. -/
def entity (t : Tables L T) (e : EntityId) : Except Stop Entity :=
  match t.entities.get? e with
  | some x => .ok x
  | none => .error (.fault (.entity e))

/-- A scope; a released one is a fault. -/
def scope (t : Tables L T) (c : ScopeId) : Except Stop (Scope L T) :=
  match t.scopes.get? c with
  | some s => .ok s
  | none => .error (.fault (.scope c))

/-- The scope that an entity holds. -/
def scopeOf? (t : Tables L T) (e : EntityId) : Option ScopeId :=
  (t.entities.get? e).bind (·.kind.scope?)

/-- The node of a type. What is no live type fails. -/
def typeNode (t : Tables L T) (e : EntityId) : Except Stop NodeId :=
  match (t.entities.get? e).bind (·.kind.node?) with
  | some node => .ok node
  | none => .error (.failure (.notAType e))

/-- The node of a type, if the entity is one. -/
def node? (t : Tables L T) (e : EntityId) : Option NodeId :=
  (t.entities.get? e).bind (·.kind.node?)

/-- All entities that a scope holds. -/
def content (t : Tables L T) (c : ScopeId) : Except Stop (List EntityId) := do
  return (← t.scope c).content

/-! ## Inheritance between entities -/

/-- The supertype of a type. -/
def superType (t : Tables L T) (e : EntityId) : Except Stop (Option EntityId) := do
  let n ← t.forest.node (← t.typeNode e)
  match n.parent with
  | some parent => return some (← t.forest.owner parent)
  | none => return none

/-- Whether a type is another one or a subtype of it; what is no type is not. -/
def isA (t : Tables L T) (e other : EntityId) : Except Stop Bool :=
  match t.node? e, t.node? other with
  | some a, some b => t.forest.isA a b
  | _, _ => return false

/-- The number of steps from a type up to another one, if there is a way. -/
def distance (t : Tables L T) (e other : EntityId) : Except Stop (Option Nat) :=
  match t.node? e, t.node? other with
  | some a, some b => t.forest.distance a b
  | _, _ => return none

/-- The nearest type that both inherit from. -/
def commonAncestor (t : Tables L T) (e other : EntityId) : Except Stop (Option EntityId) := do
  match t.node? e, t.node? other with
  | some a, some b =>
    match ← t.forest.commonAncestor a b with
    | some n => return some (← t.forest.owner n)
    | none => return none
  | _, _ => return none

/-- The live direct subtypes of a type. -/
def subtypes (t : Tables L T) (e : EntityId) : Except Stop (List EntityId) := do
  match t.node? e with
  | some node =>
    let _ ← t.forest.node node
    (t.forest.children node).mapM t.forest.owner
  | none => return []

/-- A type and its supertypes, the root of the tree first. -/
def lineage (t : Tables L T) (e : EntityId) : Except Stop (List EntityId) := do
  match (← t.forest.node (← t.typeNode e)).ancestors with
  | some chain => chain.mapM t.forest.owner
  | none => return [e]

/-! ## Changing -/

/-- Makes the entity that a declaration describes, with its scope and its node; no supertype is
linked. -/
def place (t : Tables L T) (d : Declaration L) : EntityId × Tables L T :=
  let e := t.entities.next
  let t' := match d.kind with
    | .type _ =>
      { t with
        forest := t.forest.insert e
        scopes := t.scopes.insert { entity := e }
        entities := t.entities.insert (d.toEntity (.type t.forest.nodes.next t.scopes.next)) }
    | .package loader =>
      { t with
        scopes := t.scopes.insert { entity := e, loader }
        entities := t.entities.insert (d.toEntity (.package t.scopes.next)) }
    | .function result =>
      { t with entities := t.entities.insert (d.toEntity (.function result)) }
    | .var type => { t with entities := t.entities.insert (d.toEntity (.var type)) }
    | .thread => { t with entities := t.entities.insert (d.toEntity .thread) }
  (e, t')

/-- Frees an entity with its scope and its node, whoever refers to it. -/
def discard (t : Tables L T) (e : EntityId) : Tables L T :=
  match (t.entities.get? e).map Entity.kind with
  | some (.type node members) =>
    { t with
      entities := t.entities.erase e
      forest := t.forest.erase node
      scopes := t.scopes.erase members }
  | some (.package scope) =>
    { t with entities := t.entities.erase e, scopes := t.scopes.erase scope }
  | some _ => { t with entities := t.entities.erase e }
  | none => t

/-- Puts an entity into a scope under its name and signature. It fails if the entity was put into a
scope before, and if the scope has an entity of that name and signature. -/
def attach (t : Tables L T) (c : ScopeId) (e : EntityId) : Except Stop (Tables L T) := do
  let x ← t.entity e
  if let some owner := x.owner then throw (.failure (.alreadyOwned e owner))
  match (← t.scope c).find? x.name x.params with
  | some existing =>
    let previous := (← t.entity existing).location
    throw (.failure (.duplicateDefinition x.name existing x.location previous))
  | none =>
    return { t with
      scopes := t.scopes.modify c (·.push x.name x.params e)
      entities := t.entities.modify e fun x => { x with owner := some c } }

/-- Whether an entity can be released: it is live, no scope holds it, it is not the root package,
and if it is a type, it has no live subtype. -/
def isReleasable (t : Tables L T) (e : EntityId) : Bool :=
  match t.entities.get? e with
  | some x =>
    x.owner.isNone && e != rootEntity &&
      match x.kind with
      | .type node _ => t.forest.isReleasable node
      | _ => true
  | none => false

end Tables

end NameResolution
