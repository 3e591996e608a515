import NameResolution.Handle
import NameResolution.OverloadSet

/-!
# Scopes

A scope is the inside of a package or a type: overload sets under simple names, in the order in
which the names came, a loader that can fill it, how far that has got, and the observers to be told
about additions.
-/

namespace NameResolution

/-- How far a scope is filled from its loader. -/
inductive LoadState where
  /-- Nothing is loaded, or single names only. -/
  | unloaded
  /-- A full load is running. -/
  | loading
  /-- Everything is loaded that the loader can give. -/
  | loaded
deriving DecidableEq

namespace LoadState

/-- The word for a state. -/
def word : LoadState → String
  | unloaded => "unloaded"
  | loading => "loading"
  | loaded => "loaded"

/-- The state for inspection. -/
def inspect : LoadState → String
  | unloaded => "Unloaded"
  | loading => "Loading"
  | loaded => "Loaded"

end LoadState

/-- The number of an observer. -/
abbrev ObserverId := Nat

/-- The inside of a package or a type. -/
structure Scope (L T : Type) where
  /-- The entity whose inside this is. -/
  entity : EntityId
  names : List (String × OverloadSet T) := []
  state : LoadState := .unloaded
  /-- The loader; it is away while a call of it runs. -/
  loader : Option L := none
  observers : List ObserverId := []

namespace Scope

variable {L T : Type}

/-- The overload set of a name. -/
def overloads? (s : Scope L T) (name : String) : Option (OverloadSet T) :=
  s.names.lookup name

/-- The entity of a name and signature. -/
def find? (s : Scope L T) (name : String) (params : List Param) : Option EntityId :=
  (s.overloads? name).bind (·.find? params)

/-- The names with the overload set of one of them changed; a new name comes last. -/
def alter (name : String) (f : OverloadSet T → OverloadSet T) :
    List (String × OverloadSet T) → List (String × OverloadSet T)
  | [] => [(name, f {})]
  | (n, s) :: rest => if n = name then (n, f s) :: rest else (n, s) :: alter name f rest

/-- The scope with an entity more. -/
def push (s : Scope L T) (name : String) (params : List Param) (entity : EntityId) : Scope L T :=
  { s with names := alter name (·.push params entity) s.names }

/-- The scope with a template more. -/
def addTemplate (s : Scope L T) (name : String) (template : T) : Scope L T :=
  { s with names := alter name (·.addTemplate template) s.names }

/-- All entities, name by name. -/
def content (s : Scope L T) : List EntityId :=
  s.names.flatMap fun entry => entry.2.entities

/-- The scope with an observer more; one that watches it already is told twice. -/
def watch (s : Scope L T) (observer : ObserverId) : Scope L T :=
  { s with observers := s.observers ++ [observer] }

/-- The scope without an observer. -/
def unwatch (s : Scope L T) (observer : ObserverId) : Scope L T :=
  { s with observers := s.observers.filter (· ≠ observer) }

/-- The scope without the observers that are gone. -/
def prune (s : Scope L T) (gone : List ObserverId) : Scope L T :=
  { s with observers := s.observers.filter (· ∉ gone) }

/-- The scope for inspection. -/
def inspect (s : Scope L T) : String :=
  Text.inspectRecord "SymbolContainer"
    [("entity", s.entity.inspect), ("state", s.state.inspect),
      ("names", toString s.names.length), ("lazy", Text.inspectBool s.loader.isSome)]

/-- A changed name reads as the changed overload set. -/
theorem lookup_alter_self (name : String) (f : OverloadSet T → OverloadSet T)
    (names : List (String × OverloadSet T)) :
    (alter name f names).lookup name = some (f ((names.lookup name).getD {})) := by
  induction names with
  | nil => simp [alter]
  | cons entry rest ih =>
    obtain ⟨key, overloads⟩ := entry
    by_cases h : key = name
    · subst h; simp [alter]
    · have h' : (name == key) = false := by simpa using Ne.symm h
      simp [alter, h, List.lookup_cons, h', ih]

/-- The other names read as before. -/
theorem lookup_alter_of_ne {name other : String} (h : other ≠ name)
    (f : OverloadSet T → OverloadSet T) (names : List (String × OverloadSet T)) :
    (alter name f names).lookup other = names.lookup other := by
  induction names with
  | nil => simp [alter, h]
  | cons entry rest ih =>
    obtain ⟨key, overloads⟩ := entry
    by_cases h' : key = name
    · subst h'; simp [alter, List.lookup_cons, beq_eq_false_iff_ne.2 h]
    · simp [alter, h', List.lookup_cons, ih]

end Scope

end NameResolution
