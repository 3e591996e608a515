import NameResolution.Param

/-!
# Overload sets

The entities of one simple name in a scope, told apart by their signatures, and the templates that
can make further entities of that name. A signature selects the entity that has exactly it.
-/

namespace NameResolution

/-- An entity under its signature. -/
structure Overload where
  params : List Param
  entity : EntityId
deriving DecidableEq

/-- The entities and templates of one simple name. -/
structure OverloadSet (T : Type) where
  items : List Overload := []
  templates : List T := []

namespace OverloadSet

variable {T : Type}

/-- The entity with a signature. -/
def find? (s : OverloadSet T) (params : List Param) : Option EntityId :=
  (s.items.find? (·.params = params)).map Overload.entity

/-- The set with an entity more, after the others. -/
def push (s : OverloadSet T) (params : List Param) (entity : EntityId) : OverloadSet T :=
  { s with items := s.items ++ [⟨params, entity⟩] }

/-- The set with an entity more, or the entity that has the signature already. -/
def add (s : OverloadSet T) (params : List Param) (entity : EntityId) :
    Except EntityId (OverloadSet T) :=
  match s.find? params with
  | some existing => .error existing
  | none => .ok (s.push params entity)

/-- The set with a template more. -/
def addTemplate (s : OverloadSet T) (template : T) : OverloadSet T :=
  { s with templates := s.templates ++ [template] }

/-- The entities, in the order in which they came. -/
def entities (s : OverloadSet T) : List EntityId :=
  s.items.map Overload.entity

/-- Whether the set holds neither entities nor templates. -/
def isEmpty (s : OverloadSet T) : Bool :=
  s.items.isEmpty && s.templates.isEmpty

/-- The set for inspection; its templates are shown by their names. -/
def inspect (nameOf : T → String) (s : OverloadSet T) : String :=
  let item (o : Overload) :=
    Text.inspectRecord "Overload"
      [("params", Text.inspectList (o.params.map Param.inspect)), ("entity", o.entity.inspect)]
  Text.inspectRecord "OverloadSet"
    [("items", Text.inspectList (s.items.map item)),
      ("templates", Text.inspectList (s.templates.map fun t => Text.quote (nameOf t)))]

/-- An entity that has just been put in is the one with its signature. -/
theorem find?_push {s : OverloadSet T} {params : List Param} (entity : EntityId)
    (h : s.find? params = none) : (s.push params entity).find? params = some entity := by
  simp only [find?, push, Option.map_eq_none_iff] at h ⊢
  simp [List.find?_append, h]

end OverloadSet

end NameResolution
