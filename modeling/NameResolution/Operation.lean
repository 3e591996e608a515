import NameResolution.Session.Decoding

/-!
# Operations

Everything that can be done to a session from outside, as data: the compiler that drives the session
performs operations, and so do loaders while they run. Each operation has answers of its own type;
a failure is an answer, a fault is not.
-/

namespace NameResolution

/-- What can be asked of a session. -/
inductive Operation (L T : Type) where
  | declare (d : Declaration L)
  | add (c : ScopeId) (e : EntityId)
  | define (c : ScopeId) (d : Declaration L)
  | defineReporting (c : ScopeId) (ds : List (Declaration L))
  | addTemplate (c : ScopeId) (template : T)
  | release (e : EntityId)
  | watch (c : ScopeId) (observer : ObserverId)
  | unwatch (c : ScopeId) (observer : ObserverId)
  | drop (observer : ObserverId)
  | setSuper (e : EntityId) (parent : Option EntityId)
  | clearSuper (e : EntityId)
  | forceLoad (c : ScopeId)
  | simplify (c : ScopeId) (p : NamePart)
  | tryFind (c : ScopeId) (p : NamePart)
  | find (c : ScopeId) (p : NamePart)
  | resolveOverload (c : ScopeId) (name : String) (params : List Param) (location : Location)
  | findName (c : ScopeId) (n : QualifiedName)
  | lookup (c : ScopeId) (n : QualifiedName)
  | require (c : ScopeId) (n : QualifiedName) (location : Location)
  | requireReporting (c : ScopeId) (n : QualifiedName) (location : Location)
  | findMember (e : EntityId) (p : NamePart)
  | readMangled (text : String)
  | decode (c : ScopeId) (text : String)

namespace Operation

variable {L T W : Type}

/-- The answers to an operation. -/
@[reducible] def Answer : Operation L T → Type
  | declare _ | define .. | require .. | decode .. => Except Failure EntityId
  | add .. | forceLoad _ => Except Failure Unit
  | defineReporting .. => List EntityId × Report
  | addTemplate .. | watch .. | unwatch .. | drop _ => Unit
  | release _ => Bool
  | setSuper .. | clearSuper _ => Except Failure Bool
  | simplify .. => Except Failure (Option NamePart)
  | tryFind .. | find .. | resolveOverload .. | findName .. | lookup .. | findMember .. =>
    Except Failure (Option EntityId)
  | requireReporting .. => Option EntityId × Report
  | readMangled _ => Except Failure QualifiedName

open Session (attempt)

/-- Performs an operation. -/
def perform (services : Services L T W) : (op : Operation L T) → Run L T W op.Answer
  | declare d => attempt (Session.declare d)
  | add c e => attempt (Session.add c e)
  | define c d => attempt (Session.define c d)
  | defineReporting c ds => Session.defineReporting c ds
  | addTemplate c template => Session.addTemplate services c template
  | release e => Session.release e
  | watch c observer => Session.watch c observer
  | unwatch c observer => Session.unwatch c observer
  | drop observer => Session.drop observer
  | setSuper e parent => attempt (Session.setSuper e parent)
  | clearSuper e => attempt (Session.clearSuper e)
  | forceLoad c => attempt (Session.forceLoad services c)
  | simplify c p => attempt (Session.simplify services c p)
  | tryFind c p => attempt (Session.tryFind services c p)
  | find c p => attempt (Session.find services c p)
  | resolveOverload c name params location =>
    attempt (Session.resolveOverload services c name params location)
  | findName c n => attempt (Session.findName services n c)
  | lookup c n => attempt (Session.lookup services c n)
  | require c n location => attempt (Session.require services c n location)
  | requireReporting c n location => Session.requireReporting services c n location
  | findMember e p => attempt (Session.findMember services e p)
  | readMangled text => attempt (Session.readMangled services text)
  | decode c text => attempt (Session.decode services c text)

end Operation

end NameResolution
