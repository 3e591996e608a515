import NameResolution.Script

/-!
# Hosts

A host gives a meaning to loaders and templates. A loader answers a request with a script, which
may perform operations that call loaders again; how deep such calls may be nested is bounded by
fuel, and a run that would go deeper stops for want of it. The same fuel bounds how many enclosing
scopes a lookup visits.
-/

namespace NameResolution

/-- The behaviour of loaders and templates. -/
structure Host (L T W : Type) extends Templates L T W where
  /-- What a loader does for a request, and the loader as it is afterwards. -/
  load : L → ScopeId → Option NamePart → Script L T W (LoadReply L × L)

namespace Host

variable {L T W α : Type}

/-- The services for runs in which loader calls are nested at most `fuel` deep. -/
def services (host : Host L T W) : Nat → Services L T W
  | 0 => { host.toTemplates with load := fun _ _ _ => throw .outOfFuel, reach := 0 }
  | fuel + 1 =>
    { host.toTemplates with
      load := fun loader c request => (host.load loader c request).run (services host fuel)
      reach := fuel + 1 }

/-- Runs a script. -/
def run (host : Host L T W) (fuel : Nat) (script : Script L T W α) (s : Session L T W) :
    Except Stop α × Session L T W :=
  (script.run (host.services fuel)).run s

/-- Performs an operation. -/
def perform (host : Host L T W) (fuel : Nat) (op : Operation L T) (s : Session L T W) :
    Except Stop op.Answer × Session L T W :=
  (op.perform (host.services fuel)).run s

end Host

end NameResolution
