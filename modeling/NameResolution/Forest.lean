import NameResolution.HandleSet
import NameResolution.Note

/-!
# The inheritance forest

Every type has a node. A node links to the node of its supertype, lists its subtypes, and carries
its chain: the path from the root of its tree down to itself. Questions about inheritance index
into the chains and follow no links, so a relinked node has its chain computed anew, and so have
all nodes below it, level by level.

A node whose supertype was never declared has no chain of its own; it counts as a root, but is told
apart from a declared root. Subtypes are listed in a `HandleSet`, so a released subtype is skipped,
as long as its slot is not emptied so often that the handle is given out once more. From then on a
list may name a node that is no subtype. A walk down the lists need not end then (`descend`), the
nodes that it meets need not have a supertype (`extendUnder`), and their chains may be shorter than
that of the node it began with (`subtreeHeight`).
-/

namespace NameResolution

/-- The inheritance record of one type. -/
structure TypeNode where
  /-- The entity of the type. -/
  owner : EntityId
  /-- The node of the supertype. -/
  parent : Option NodeId := none
  /-- The path from the root to the node itself; none while no supertype is declared. -/
  ancestors : Option (List NodeId) := none
  /-- The nodes of the subtypes. -/
  children : HandleSet .node := {}

/-- All nodes, and the greatest length of a chain. -/
structure Forest where
  nodes : SlotTable .node TypeNode := {}
  maxDepth : Nat

namespace Forest

/-! ## Reading -/

/-- A node; a released one is a fault. -/
def node (f : Forest) (id : NodeId) : Except Stop TypeNode :=
  match f.nodes.get? id with
  | some n => .ok n
  | none => .error (.fault (.node id))

/-- The path from the root to a node. -/
def chain (f : Forest) (id : NodeId) : List NodeId :=
  ((f.nodes.get? id).bind TypeNode.ancestors).getD [id]

/-- The parent of a live node. -/
def parent? (f : Forest) (id : NodeId) : Option NodeId :=
  (f.nodes.get? id).bind TypeNode.parent

/-- The live direct subtypes of a node. -/
def children (f : Forest) (id : NodeId) : List NodeId :=
  match f.nodes.get? id with
  | some n => n.children.live f.nodes
  | none => []

/-- The nodes `k` levels below those of a level. -/
def level (f : Forest) : Nat → List NodeId → List NodeId
  | 0, l => l
  | k + 1, l => f.level k (l.flatMap f.children)

/-- The nodes below those of a level, level by level, for at most so many levels. -/
def below (f : Forest) : Nat → List NodeId → List NodeId
  | 0, _ => []
  | levels + 1, level =>
    match level.flatMap f.children with
    | [] => []
    | next => next ++ below f levels next

/-- The live subtypes of a node, nearest first, on as many levels as there are slots. -/
def descendants (f : Forest) (id : NodeId) : List NodeId :=
  f.below f.nodes.slots.size [id]

/-- The live subtypes of a node at any distance, nearest first. A walk that comes down further than
there are slots has met a node twice on its way, so it goes on for ever. -/
def descend (f : Forest) (id : NodeId) : Except Stop (List NodeId) := do
  let _ ← f.node id
  if (f.level f.nodes.slots.size [id]).isEmpty then return f.descendants id else throw .outOfFuel

/-- Whether a node is another one or below it: the other one stands in its chain at the place of
the other one's own end. -/
def inherits (f : Forest) (id other : NodeId) : Bool :=
  (f.chain id)[(f.chain other).length - 1]? == some other

/-- The common beginning of two paths. -/
def commonPath : List NodeId → List NodeId → List NodeId
  | a :: as, b :: bs => if a = b then a :: commonPath as bs else []
  | _, _ => []

/-! ## Questions about live nodes -/

/-- Whether a type is another one or inherits from it. -/
def isA (f : Forest) (id other : NodeId) : Except Stop Bool := do
  let _ ← f.node id
  let _ ← f.node other
  return f.inherits id other

/-- The number of steps from a type up to another one, if it inherits from it. -/
def distance (f : Forest) (id other : NodeId) : Except Stop (Option Nat) := do
  if ← f.isA id other then return some ((f.chain id).length - (f.chain other).length)
  else return none

/-- The nearest type that both inherit from. -/
def commonAncestor (f : Forest) (a b : NodeId) : Except Stop (Option NodeId) := do
  let _ ← f.node a
  let _ ← f.node b
  return (commonPath (f.chain a) (f.chain b)).getLast?

/-- The number of steps from a type up to its root. -/
def depth (f : Forest) (id : NodeId) : Except Stop Nat := do
  let _ ← f.node id
  return (f.chain id).length - 1

/-- The entity of a node. -/
def owner (f : Forest) (id : NodeId) : Except Stop EntityId := do
  return (← f.node id).owner

/-! ## Growing -/

/-- The forest with a node more, whose supertype is not declared. Its handle is that of the next
node. -/
def insert (f : Forest) (owner : EntityId) : Forest :=
  { f with nodes := f.nodes.insert { owner } }

/-! ## Relinking -/

/-- The number of nodes on the longest path from a node down to a live descendant, by the lengths of
their chains. A chain below the node that is shorter than its own is a fault. -/
def subtreeHeight (f : Forest) (id : NodeId) : Except Stop Nat := do
  let base := (f.chain id).length
  let steps ← (← f.descend id).mapM fun d =>
    if base ≤ (f.chain d).length then .ok ((f.chain d).length - base)
    else .error (.fault .underflow)
  return steps.foldl max 0 + 1

/-- Moves a node from the children of its old parent to those of the new one. -/
def move (f : Forest) (id : NodeId) (parent : Option NodeId) : Forest :=
  let nodes := match f.parent? id with
    | some old => f.nodes.modify old fun n => { n with children := n.children.erase id }
    | none => f.nodes
  let nodes := match parent with
    | some new =>
      nodes.modify new fun n => { n with children := (n.children.prune nodes).insert id }
    | none => nodes
  { f with nodes := nodes.modify id fun n => { n with parent } }

/-- Gives a node a chain. -/
def setAncestors (f : Forest) (id : NodeId) (ancestors : Option (List NodeId)) : Forest :=
  { f with nodes := f.nodes.modify id fun n => { n with ancestors } }

/-- Gives a node the chain of its parent, continued by itself; a node without a parent counts as a
child of `id`. -/
def extendUnder (id : NodeId) (f : Forest) (x : NodeId) : Forest :=
  f.setAncestors x (some (f.chain ((f.parent? x).getD id) ++ [x]))

/-- Computes the chains of all nodes below a node anew, nearest first. -/
def propagate (f : Forest) (id : NodeId) : Forest :=
  (f.descendants id).foldl (extendUnder id) f

/-- A node is under a parent and has a chain of its own; the chains below it are still to be
mended. -/
def moved (f : Forest) (id : NodeId) (parent : Option NodeId) (ancestors : Option (List NodeId)) :
    Forest :=
  (f.move id parent).setAncestors id ancestors

/-- A node is under a parent and has a chain of its own, and the chains below it are mended. -/
def relinked (f : Forest) (id : NodeId) (parent : Option NodeId)
    (ancestors : Option (List NodeId)) : Forest :=
  (f.moved id parent ancestors).propagate id

/-- A forest after a change, with what is to be noted about the change. -/
structure Change where
  forest : Forest
  notes : List Note

/-- Puts a node under a parent with a chain of its own, and mends the chains below it. -/
def relink (f : Forest) (id : NodeId) (parent : Option NodeId) (ancestors : Option (List NodeId))
    (opening : Note) : Except Stop Change := do
  let below ← (f.moved id parent ancestors).descend id
  return {
    forest := f.relinked id parent ancestors
    notes := opening :: if below.isEmpty then [] else [.propagated id below.length] }

/-- Links a node under a parent, or makes it a declared root. Nothing is returned when it is there
already. A node cannot come below itself, and no chain may get longer than the limit. -/
def setParent (f : Forest) (id : NodeId) (parent : Option NodeId) :
    Except Stop (Option Change) := do
  let n ← f.node id
  if n.parent = parent ∧ (parent.isSome ∨ n.ancestors.isSome) then return none
  match parent with
  | some p =>
    if ← f.isA p id then
      throw (.failure (.cyclicInheritance n.owner (← f.owner p)))
    let length := (f.chain p).length + (← f.subtreeHeight id)
    if length > f.maxDepth then throw (.failure (.chainTooLong length f.maxDepth))
    return some (← f.relink id (some p) (some (f.chain p ++ [id]))
      (.relinking id n.parent (some p)))
  | none => return some (← f.relink id none (some [id]) (.relinking id n.parent none))

/-- Takes the declaration of a node's supertype back. Nothing is returned when there is none. -/
def clearParent (f : Forest) (id : NodeId) : Except Stop (Option Change) := do
  let n ← f.node id
  if n.parent.isNone ∧ n.ancestors.isNone then return none
  return some (← f.relink id none none (.clearing id))

/-! ## Releasing -/

/-- Whether a node can be released: a subtype keeps its supertype alive. -/
def isReleasable (f : Forest) (id : NodeId) : Bool :=
  f.nodes.contains id && (f.children id).isEmpty

/-- The forest without a node, if it can be released. The parent's list of children is left alone;
the handle in it is stale from now on. -/
def erase (f : Forest) (id : NodeId) : Forest :=
  if f.isReleasable id then { f with nodes := f.nodes.erase id } else f

end Forest

end NameResolution
