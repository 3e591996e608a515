import NameResolution.Session

/-!
# Declaring entities

A declared entity is unowned until it is put into a scope, which happens at most once. Defining
does both, and leaves nothing behind when one of the two fails. Observers of the scope are told
after the fact.
-/

namespace NameResolution.Session

variable {L T W : Type}

/-- Frees an entity, whoever refers to it. -/
def discard (e : EntityId) : Run L T W Unit := do
  setTables ((← getTables).discard e)
  note (.released e)

/-- Makes an unowned entity. The supertype of a type has to be a type, and is linked at once. -/
def declare (d : Declaration L) : Run L T W EntityId := do
  let parent ← match d.kind with
    | .type (some parent) => some <$> ask (·.typeNode parent)
    | _ => pure none
  let (e, t) := (← getTables).place d
  setTables t
  if let some parent := parent then
    undoing (discard e) do
      let node ← ask (·.typeNode e)
      if let some change ← ask (·.forest.setParent node (some parent)) then
        changeForest change
  let x ← ask (·.entity e)
  note (.declared x.kind.word e)
  return e

/-- Tells the observers of a scope about an entity. Observers that are gone are forgotten first. -/
def notifyAdded (c : ScopeId) (e : EntityId) : Run L T W Unit := do
  let gone := (← get).gone
  modifyScope c (·.prune gone)
  let t ← getTables
  let s ← ask (·.scope c)
  s.observers.forM fun observer =>
    record (.notified observer c e ((t.entities.get? e).bind Entity.owner))

/-- Puts an entity into a scope. -/
def add (c : ScopeId) (e : EntityId) : Run L T W Unit := do
  setTables (← ask (·.attach c e))
  notifyAdded c e

/-- Declares an entity and puts it into a scope. -/
def define (c : ScopeId) (d : Declaration L) : Run L T W EntityId := do
  let e ← declare d
  undoing (discard e) (add c e)
  return e

/-- Defines what can be defined, in order. The entities are returned, and the diagnostics of what
could not be. -/
def defineReporting (c : ScopeId) : List (Declaration L) → Run L T W (List EntityId × Report)
  | [] => return ([], [])
  | d :: ds => do
    match ← attempt (define c d) with
    | .ok e =>
      let (es, report) ← defineReporting c ds
      return (e :: es, report)
    | .error f =>
      note (.reporting f)
      let (es, report) ← defineReporting c ds
      return (es, f.diagnostic :: report)

/-- Registers a template under its name. -/
def addTemplate (services : Services L T W) (c : ScopeId) (template : T) : Run L T W Unit :=
  modifyScope c (·.addTemplate (services.templateName template) template)

/-- Frees an entity if nothing refers to it; whether that was so. -/
def release (e : EntityId) : Run L T W Bool := do
  if (← getTables).isReleasable e then
    discard e
    return true
  else return false

/-! ## Observers -/

/-- Has an observer told about what is put into a scope from now on. -/
def watch (c : ScopeId) (observer : ObserverId) : Run L T W Unit :=
  modifyScope c (·.watch observer)

/-- Has an observer told no longer. -/
def unwatch (c : ScopeId) (observer : ObserverId) : Run L T W Unit :=
  modifyScope c (·.unwatch observer)

/-- Lets an observer go. Scopes that it watches notice when they tell their observers next. -/
def drop (observer : ObserverId) : Run L T W Unit :=
  modify fun s => { s with gone := observer :: s.gone }

/-! ## Supertypes -/

/-- Declares a supertype, or that there is none. Whether anything changed. -/
def setSuper (e : EntityId) (parent : Option EntityId) : Run L T W Bool := do
  let node ← ask (·.typeNode e)
  let parent ← match parent with
    | some p => some <$> ask (·.typeNode p)
    | none => pure none
  match ← ask (·.forest.setParent node parent) with
  | some change =>
    changeForest change
    return true
  | none => return false

/-- Takes the declaration of a supertype back. Whether anything changed. -/
def clearSuper (e : EntityId) : Run L T W Bool := do
  let node ← ask (·.typeNode e)
  match ← ask (·.forest.clearParent node) with
  | some change =>
    changeForest change
    return true
  | none => return false

end NameResolution.Session
