import NameResolution.Session.Loading

/-!
# Finding entities

A part is looked for in a scope by its text and signature: among the entities there, then through
the templates of its text, then by loading the part alone, and last by loading everything. A name is
followed part by part, each part in the scope of the one before; looked up, it is also tried from
every enclosing scope.

The arguments of a pattern part are names, which are looked up first, so these functions call each
other along the structure of names.
-/

namespace NameResolution.Session

variable {L T W : Type}

/-! ## Parts with a signature -/

/-- Asks each of some templates for a signature; the declarations of those that apply to it. -/
def consult (services : Services L T W) (params : List Param) :
    List T → Run L T W (List (Declaration L))
  | [] => return []
  | template :: rest => do
    let s ← get
    let d := services.generate template s.tables s.world params
    record (.consulted template params d.isSome)
    return d.toList ++ (← consult services params rest)

/-- Makes an entity of a signature by one of the templates of a scope. There is none unless one of
them applies, and it is a failure if several do. The entity gets the name and the signature asked
for; it is put into the scope if it is to be kept. -/
def instantiate (services : Services L T W) (c : ScopeId) (templates : List T) (name : String)
    (params : List Param) (location : Location) : Run L T W (Option EntityId) := do
  let generated ← consult services params templates
  match generated with
  | [] => return none
  | [d] =>
    let e ← declare { d with name, params }
    if (← getTables).config.memoizeTemplates then undoing (discard e) (add c e)
    note (.instantiated ((← getTables).showPath e))
    return some e
  | _ => fail (.ambiguousTemplate name generated.length location)

/-- The entity of a name and signature in a scope, made by a template if none is declared. -/
def resolveOverload (services : Services L T W) (c : ScopeId) (name : String) (params : List Param)
    (location : Location) : Run L T W (Option EntityId) := do
  match (← ask (·.scope c)).overloads? name with
  | none => return none
  | some overloads =>
    match overloads.find? params with
    | some e => return some e
    | none => instantiate services c overloads.templates name params location

/-- The entity of a name and signature in a scope, loaded if need be. -/
def findSimple (services : Services L T W) (c : ScopeId) (name : String) (params : List Param) :
    Run L T W (Option EntityId) := do
  let resolve := resolveOverload services c name params .unknown
  if let some e ← resolve then return some e
  if (← ask (·.scope c)).state = .loaded then return none
  loadPart services c (.simple name params)
  if let some e ← resolve then return some e
  forceLoad services c
  resolve

/-! ## Names -/

/-- Looks from a scope, then from each enclosing one, for at most so many scopes. -/
def climb (look : ScopeId → Run L T W (Option EntityId)) :
    Nat → ScopeId → Run L T W (Option EntityId)
  | 0, _ => throw .outOfFuel
  | steps + 1, c => do
    match ← look c with
    | some e => return some e
    | none =>
      let s ← ask (·.scope c)
      match ((← getTables).entities.get? s.entity).bind Entity.owner with
      | some owner => climb look steps owner
      | none => return none

/-- Finds a part whose signature is given by `signature`, which may be missing. -/
def findWith (services : Services L T W) (c : ScopeId)
    (signature : Run L T W (Option (String × List Param))) : Run L T W (Option EntityId) := do
  match ← signature with
  | some (name, params) => findSimple services c name params
  | none => return none

mutual

/-- The text and signature of a part. The arguments of a pattern part are looked up from a scope,
each standing for its entity by value; the signature is missing if one of them is not found. -/
def signature (services : Services L T W) :
    NamePart → ScopeId → Run L T W (Option (String × List Param))
  | .simple text params, _ => return some (text, params)
  | .pattern text arguments, c => do
    match ← argumentParams services arguments c with
    | some params => return some (text, params)
    | none => return none

/-- The parameters that arguments stand for. -/
def argumentParams (services : Services L T W) :
    List (List NamePart) → ScopeId → Run L T W (Option (List Param))
  | [], _ => return some []
  | n :: ns, c => do
    match ← climb (findName services n) services.reach c with
    | none => return none
    | some e =>
      match ← argumentParams services ns c with
      | some params => return some (.value e :: params)
      | none => return none

/-- Follows a name from a scope. The empty name is the entity of the scope. -/
def findName (services : Services L T W) :
    List NamePart → ScopeId → Run L T W (Option EntityId)
  | [], c => return some (← ask (·.scope c)).entity
  | p :: ps, c => do
    let _ ← ask (·.scope c)
    match ← findWith services c (signature services p c) with
    | some e => findBelow services ps e
    | none => return none

/-- Follows the rest of a name from the entity that its first parts denote. -/
def findBelow (services : Services L T W) :
    List NamePart → EntityId → Run L T W (Option EntityId)
  | [], e => return some e
  | p :: ps, e => do
    match (← ask (·.entity e)).kind.scope? with
    | none => return none
    | some c =>
      match ← findWith services c (signature services p c) with
      | some e => findBelow services ps e
      | none => return none

end

/-! ## Operations -/

/-- A part with the signature that its arguments stand for. -/
def simplify (services : Services L T W) (c : ScopeId) (p : NamePart) :
    Run L T W (Option NamePart) := do
  return (← signature services p c).map fun s => .simple s.1 s.2

/-- Finds a part among what a scope holds, and loads nothing for it. -/
def tryFind (services : Services L T W) (c : ScopeId) (p : NamePart) :
    Run L T W (Option EntityId) := do
  match ← signature services p c with
  | some (name, params) => resolveOverload services c name params .unknown
  | none => return none

/-- Finds a part in a scope. -/
def find (services : Services L T W) (c : ScopeId) (p : NamePart) : Run L T W (Option EntityId) :=
  findWith services c (signature services p c)

/-- Follows a name from a scope, then from each enclosing one. -/
def lookup (services : Services L T W) (c : ScopeId) (n : QualifiedName) :
    Run L T W (Option EntityId) :=
  climb (findName services n) services.reach c

/-- Looks a name up; its absence is a failure at a location. -/
def require (services : Services L T W) (c : ScopeId) (n : QualifiedName) (location : Location) :
    Run L T W EntityId := do
  match ← lookup services c n with
  | some e => return e
  | none => fail (.unresolved n.render location)

/-- Looks a name up; a failure is returned as its diagnostic. -/
def requireReporting (services : Services L T W) (c : ScopeId) (n : QualifiedName)
    (location : Location) : Run L T W (Option EntityId × Report) := do
  match ← attempt (require services c n location) with
  | .ok e => return (some e, [])
  | .error f => return (none, [f.diagnostic])

/-- Finds a part in the first of some entities that has it in its scope. -/
def findInFirst (services : Services L T W) (p : NamePart) :
    List EntityId → Run L T W (Option EntityId)
  | [] => return none
  | e :: es => do
    match (← getTables).scopeOf? e with
    | none => findInFirst services p es
    | some c =>
      match ← find services c p with
      | some found => return some found
      | none => findInFirst services p es

/-- Finds a member of a type, or else of the nearest supertype that has it. -/
def findMember (services : Services L T W) (e : EntityId) (p : NamePart) :
    Run L T W (Option EntityId) := do
  findInFirst services p (← ask (·.lineage e)).reverse

end NameResolution.Session
