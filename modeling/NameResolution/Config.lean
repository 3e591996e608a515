/-!
# Settings of a session
-/

namespace NameResolution

/-- What can be set for a session. -/
structure Config where
  /-- Whether a loader is asked for a missing name alone before it is asked for everything. -/
  targetedLoads : Bool := true
  /-- Whether an entity that a template made is kept for later requests. -/
  memoizeTemplates : Bool := true
  /-- The greatest length of a chain of supertypes, both ends counted. -/
  maxDepth : Nat := 4096
deriving DecidableEq

end NameResolution
