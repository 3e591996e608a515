import NameResolution.SlotTable

/-!
# Sets of handles that keep nothing alive

A set of handles into a table that changes on its own. A member whose value has been taken out of
the table is skipped when the set is read, and forgotten when the set is pruned. Taking a member
out moves the last one into its place.
-/

namespace NameResolution

/-- Handles in the order in which they are read. -/
structure HandleSet (kind : Kind) where
  members : List (Handle kind) := []
deriving DecidableEq

namespace HandleSet

variable {kind : Kind} {α : Type}

/-- Whether a handle is stored. -/
def contains (s : HandleSet kind) (h : Handle kind) : Bool :=
  decide (h ∈ s.members)

/-- The set with a handle more. -/
def insert (s : HandleSet kind) (h : Handle kind) : HandleSet kind :=
  if h ∈ s.members then s else ⟨s.members ++ [h]⟩

/-- The set without a handle; the last member takes its place. -/
def erase (s : HandleSet kind) (h : Handle kind) : HandleSet kind :=
  match s.members.idxOf? h with
  | none => s
  | some i => ⟨(s.members.set i (s.members.getLastD h)).dropLast⟩

/-- The set without the handles that are stale in `t`. -/
def prune (s : HandleSet kind) (t : SlotTable kind α) : HandleSet kind :=
  ⟨s.members.filter t.contains⟩

/-- The members that are not stale in `t`. -/
def live (s : HandleSet kind) (t : SlotTable kind α) : List (Handle kind) :=
  s.members.filter t.contains

/-- The number of handles stored, stale ones included. -/
def storedSize (s : HandleSet kind) : Nat :=
  s.members.length

/-- Pruning changes nothing that is read. -/
theorem live_prune (s : HandleSet kind) (t : SlotTable kind α) :
    (s.prune t).live t = s.live t := by
  simp [live, prune]

end HandleSet

end NameResolution
