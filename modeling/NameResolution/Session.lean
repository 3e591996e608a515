import NameResolution.Path

/-!
# Sessions

A session is the tables, a journal of what happened, the observers that are gone, and a world: the
state that loaders and templates keep among themselves. A run changes the session and ends with a
value or a stop; the session stays as the run left it in either case.

Loaders and templates come from outside. What a run needs of them is in `Services`; a call of a
loader is a run itself, for it may use the session.
-/

namespace NameResolution

/-! ## What happened -/

/-- What a loader reports back. -/
inductive LoadReply (L : Type) where
  /-- Everything asked for is in the scope. -/
  | done
  /-- The loader cannot run yet. -/
  | notReady
  /-- Declarations to be put into the scope; more may follow another time. -/
  | batch (declarations : List (Declaration L))

/-- How a call of a loader ended. -/
inductive LoadEnd where
  | done
  | notReady
  /-- With so many declarations. -/
  | batch (size : Nat)
deriving DecidableEq

/-- How a reply is recorded. -/
def LoadReply.outcome {L : Type} : LoadReply L → LoadEnd
  | done => .done
  | notReady => .notReady
  | batch declarations => .batch declarations.length

/-- An entry of the journal. -/
inductive Event (T : Type) where
  /-- A scope's loader is called, for one part or for everything. -/
  | loadBegan (scope : ScopeId) (request : Option NamePart)
  | loadEnded (scope : ScopeId) (outcome : LoadEnd)
  /-- A template is asked for an entity of a signature. -/
  | consulted (template : T) (params : List Param) (applies : Bool)
  /-- An observer is told about an entity, whose owner at that moment is given. -/
  | notified (observer : ObserverId) (scope : ScopeId) (entity : EntityId) (owner : Option ScopeId)
  | noted (note : Note)
  /-- A remark that a loader makes. -/
  | remarked (text : String)

/-- Everything that a run can change. -/
structure Session (L T W : Type) where
  tables : Tables L T
  /-- What happened, the latest first. -/
  journal : List (Event T) := []
  /-- The observers that nobody holds any more. -/
  gone : List ObserverId := []
  /-- What loaders and templates share. -/
  world : W

/-- A run of a session. -/
abbrev Run (L T W α : Type) := ExceptT Stop (StateM (Session L T W)) α

/-- The behaviour of templates, which only look. -/
structure Templates (L T W : Type) where
  /-- The simple name of the entities that a template makes. -/
  templateName : T → String
  /-- The declaration that a template makes for a signature, if it applies to it. -/
  generate : T → Tables L T → W → List Param → Option (Declaration L)

/-- What a run needs of the loaders and templates, and how far it may go. -/
structure Services (L T W : Type) extends Templates L T W where
  /-- Calls a loader, which may be another one afterwards. -/
  load : L → ScopeId → Option NamePart → Run L T W (LoadReply L × L)
  /-- The number of enclosing scopes that a lookup may visit. -/
  reach : Nat

namespace Session

variable {L T W α : Type}

/-- A session that holds the root package alone. -/
def start (config : Config) (world : W) : Session L T W :=
  { tables := Tables.start config, world }

/-! ## Steps of runs -/

/-- The tables as they are. -/
def getTables : Run L T W (Tables L T) := do
  return (← get).tables

/-- Puts other tables in place. -/
def setTables (t : Tables L T) : Run L T W Unit :=
  modify fun s => { s with tables := t }

/-- Records an event. -/
def record (event : Event T) : Run L T W Unit :=
  modify fun s => { s with journal := event :: s.journal }

/-- Records a note. -/
def note (n : Note) : Run L T W Unit :=
  record (.noted n)

/-- An answer that can be read off the tables. -/
def ask (question : Tables L T → Except Stop α) : Run L T W α := do
  match question (← getTables) with
  | .ok a => return a
  | .error stop => throw stop

/-- Stops with a failure. -/
def fail (f : Failure) : Run L T W α :=
  throw (.failure f)

/-- Runs `act`; a failure becomes a value. -/
def attempt (act : Run L T W α) : Run L T W (Except Failure α) :=
  tryCatch (Except.ok <$> act) fun
    | .failure f => return .error f
    | stop => throw stop

/-- Runs `act`; if it fails, runs `undo` and fails in the same way. -/
def undoing (undo : Run L T W Unit) (act : Run L T W α) : Run L T W α := do
  match ← attempt act with
  | .ok a => return a
  | .error f =>
    undo
    fail f

/-- Changes a scope; a released one is a fault. -/
def modifyScope (c : ScopeId) (f : Scope L T → Scope L T) : Run L T W Unit := do
  let _ ← ask (·.scope c)
  let t ← getTables
  setTables { t with scopes := t.scopes.modify c f }

/-- Puts a changed forest in place and records what is to be noted about the change. -/
def changeForest (change : Forest.Change) : Run L T W Unit := do
  let t ← getTables
  setTables { t with forest := change.forest }
  change.notes.forM note

end Session

end NameResolution
