import NameResolution.Session.Declaring

/-!
# Loading scopes

A scope with a loader is filled on demand: everything at once, or first the one part that was
missed. The loader is taken out of its scope while it runs, so requests that it causes for the same
scope do not call it again. What it returns is put into the scope afterwards.
-/

namespace NameResolution.Session

variable {L T W : Type}

/-- Takes the loader out of a scope. -/
def takeLoader (c : ScopeId) : Run L T W (Option L) := do
  let s ← ask (·.scope c)
  modifyScope c fun s => { s with loader := none }
  return s.loader

/-- Calls a loader that has been taken out of its scope, and puts it back. -/
def callLoader (services : Services L T W) (c : ScopeId) (loader : L) (request : Option NamePart) :
    Run L T W (LoadReply L) := do
  record (.loadBegan c request)
  let (reply, loader) ← services.load loader c request
  record (.loadEnded c reply.outcome)
  modifyScope c fun s => { s with loader := some loader }
  return reply

/-- Moves a scope to a state. -/
def setState (c : ScopeId) (state : LoadState) : Run L T W Unit :=
  modifyScope c fun s => { s with state }

/-- Defines what a loader returned, up to the first that cannot be defined. -/
def defineAll (c : ScopeId) : List (Declaration L) → Run L T W Unit
  | [] => return
  | d :: ds => do
    match ← attempt (define c d) with
    | .ok _ => defineAll c ds
    | .error f =>
      note (.unusable d.name f)
      fail f

/-- Loads everything that a scope's loader can give. A scope that is loaded is left alone, and so
is one whose load is running; one without a loader counts as loaded. -/
def forceLoad (services : Services L T W) (c : ScopeId) : Run L T W Unit := do
  let s ← ask (·.scope c)
  let path : Run L T W String := do return (← getTables).showPath s.entity
  match s.state with
  | .loaded => return
  | .loading => note (.reentrantLoad (← path))
  | .unloaded =>
    match ← takeLoader c with
    | none => setState c .loaded
    | some loader =>
      note (.loading (← path))
      setState c .loading
      match ← callLoader services c loader none with
      | .done =>
        setState c .loaded
        note (.loaded (← path))
      | .notReady =>
        setState c .unloaded
        note (.notReady (← path))
      | .batch declarations =>
        setState c .unloaded
        defineAll c declarations

/-- Asks a scope's loader for one part. -/
def loadPart (services : Services L T W) (c : ScopeId) (part : NamePart) : Run L T W Unit := do
  if (← getTables).config.targetedLoads then
    match ← takeLoader c with
    | none => return
    | some loader =>
      note (.targetedLoad part)
      match ← callLoader services c loader (some part) with
      | .done | .notReady => return
      | .batch declarations => defineAll c declarations

end NameResolution.Session
