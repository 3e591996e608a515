import Mathlib.Data.List.Nodup
import Mathlib.Logic.Function.Iterate
import NameResolution.Proofs.Forest.Queries
import NameResolution.Proofs.Forest.Regrafting

/-!
# Walking below a node

The nodes below a node can also be walked with a queue : the node in front is visited, and
its children queue up behind the others (`Walk.turn`). Such a walk goes level by level,
as long as visits leave the lists of children alone (`turns_level`, `turns_below`), so it
visits the descendants in their order. It ends, since there are no more levels than slots
(`Flattened.level_eq_nil`, `Flattened.endsWalk_look`).

A flattened forest has no node on two levels, and none twice on one
(`Flattened.nodup_descendants`); the levels come one after the other
(`Flattened.sorted_descendants`), so a node comes after its parent
(`Flattened.parent_before`). Relinking a node leaves the levels below it alone
(`Flattened.descendants_moved`), so the walk that mends the chains there goes through the
same nodes in the same order (`Flattened.endsWalk_moved`). In a forest whose handles have
come round it may never end (`changeling_walked_for_ever`).
-/

namespace NameResolution

namespace Forest

variable {f g : Forest} {id p q x y : NodeId} {k n : Nat} {l : List NodeId}
  {parent : Option NodeId} {ancestors : Option (List NodeId)}

/-! ## Walks -/

/-- A walk that is under way : the forest by now, the nodes that wait, and the nodes that have been
visited, each in order. -/
structure Walk where
  forest : Forest
  waiting : List NodeId
  visited : List NodeId := []

/-- One turn of a walk : the first node that waits is visited, and its children wait behind the
others. Nothing happens any more once no node waits. -/
def Walk.turn (visit : Forest → NodeId → Forest) (w : Walk) : Walk :=
  match w.waiting with
  | [] => w
  | x :: rest =>
    let f := visit w.forest x
    { forest := f, waiting := rest ++ f.children x, visited := w.visited ++ [x] }

/-- The walk below a node that begins in a forest ends in another one, after a turn for each of the
nodes that are visited. -/
def EndsWalk (visit : Forest → NodeId → Forest) (f : Forest) (id : NodeId) (g : Forest)
    (visited : List NodeId) : Prop :=
  (Walk.turn visit)^[visited.length] { forest := f, waiting := f.children id } =
    { forest := g, waiting := [], visited }

/-- A visit that only looks. -/
def look (f : Forest) (_ : NodeId) : Forest :=
  f

theorem keepsChildren_look : KeepsChildren look :=
  fun _ _ _ => rfl

section

variable {visit : Forest → NodeId → Forest} (hv : KeepsChildren visit)

include hv

/-- The nodes in front are visited in order, and all their children wait then. -/
theorem turns_level (f : Forest) (l rest visited : List NodeId) :
    (Walk.turn visit)^[l.length] { forest := f, waiting := l ++ rest, visited } =
      { forest := l.foldl visit f
        waiting := rest ++ l.flatMap f.children
        visited := visited ++ l } := by
  induction l generalizing f rest visited with
  | nil => simp
  | cons x l ih =>
    have hturn : Walk.turn visit { forest := f, waiting := x :: l ++ rest, visited } =
        { forest := visit f x
          waiting := l ++ (rest ++ f.children x)
          visited := visited ++ [x] } := by
      simp [Walk.turn, hv f x]
    rw [List.length_cons, Function.iterate_succ_apply, hturn, ih, funext (hv f x)]
    simp

end

/-- Walking down asks a forest for nothing but the lists of children. -/
theorem below_congr (h : ∀ x, g.children x = f.children x) (n : Nat) (l : List NodeId) :
    g.below n l = f.below n l := by
  induction n generalizing l with
  | zero => rfl
  | succ n ih => rw [below_succ, below_succ, ih, funext h]

/-- So many levels are visited one after the other, and the next one waits then. -/
theorem turns_below {visit : Forest → NodeId → Forest} (hv : KeepsChildren visit) (f : Forest)
    (n : Nat) (l visited : List NodeId) :
    (Walk.turn visit)^[(f.below n l).length]
        { forest := f, waiting := l.flatMap f.children, visited } =
      { forest := (f.below n l).foldl visit f
        waiting := f.level (n + 1) l
        visited := visited ++ f.below n l } := by
  induction n generalizing f l visited with
  | zero => simp [below, level]
  | succ n ih =>
    have hlevel := turns_level hv f (l.flatMap f.children) [] visited
    rw [List.append_nil, List.nil_append] at hlevel
    have hkept := hv.foldl (l.flatMap f.children) f
    have hrest := ih ((l.flatMap f.children).foldl visit f) (l.flatMap f.children)
      (visited ++ l.flatMap f.children)
    rw [below_congr hkept, level_congr (funext hkept), funext hkept] at hrest
    rw [below_succ, List.length_append, Nat.add_comm, Function.iterate_add_apply, hlevel, hrest,
      List.foldl_append, List.append_assoc]
    rfl

/-- A walk visits the descendants of a node, if the last level is empty. -/
theorem endsWalk_of_level {visit : Forest → NodeId → Forest} (hv : KeepsChildren visit)
    (h : f.level (f.nodes.slots.size + 1) [id] = []) :
    EndsWalk visit f id ((f.descendants id).foldl visit f) (f.descendants id) := by
  have hturns := turns_below hv f f.nodes.slots.size [id] []
  rwa [h, List.flatMap_singleton, List.nil_append] at hturns

/-- Nothing happens after the end. -/
theorem turns_nil (visit : Forest → NodeId → Forest) (f : Forest) (visited : List NodeId)
    (k : Nat) :
    (Walk.turn visit)^[k] { forest := f, waiting := [], visited } =
      { forest := f, waiting := [], visited } :=
  Function.iterate_fixed rfl k

/-- If no level is empty, there are at least as many nodes as levels. -/
theorem length_below (h : ∀ k, f.level (k + 1) l ≠ []) (n : Nat) : n ≤ (f.below n l).length := by
  induction n generalizing l with
  | zero => exact Nat.zero_le _
  | succ n ih =>
    have hpos := List.length_pos_iff.2 (h 0)
    have hrest := ih fun k => h (k + 1)
    rw [below_succ, List.length_append]
    rw [level, level] at hpos
    omega

/-- A walk below a live node ends exactly if `descend` answers : otherwise no level is empty, and
each of them takes a turn at least. -/
theorem exists_endsWalk_iff {visit : Forest → NodeId → Forest} (hv : KeepsChildren visit)
    (hid : f.nodes.contains id = true) :
    (∃ g visited, EndsWalk visit f id g visited) ↔ ∃ below, f.descend id = .ok below := by
  constructor
  · rintro ⟨g, visited, hends⟩
    by_contra hnot
    have hlevel (k : Nat) : f.level (k + 1) [id] ≠ [] := fun h =>
      hnot ⟨_, descend_eq_ok_iff.2 ⟨hid, level_size_eq_nil hid h, rfl⟩⟩
    obtain ⟨k, hk⟩ := Nat.exists_eq_add_of_le (length_below hlevel visited.length)
    have hturns := turns_below hv f visited.length [id] []
    rw [List.flatMap_singleton, hk, Nat.add_comm, Function.iterate_add_apply] at hturns
    have hwaiting := congrArg Walk.waiting
      ((turns_nil visit g visited k).symm.trans ((congrArg _ hends).symm.trans hturns))
    exact hlevel _ hwaiting.symm
  · rintro ⟨below, hbelow⟩
    obtain ⟨-, hlevel, -⟩ := descend_eq_ok_iff.1 hbelow
    exact ⟨_, _, endsWalk_of_level hv (level_eq_nil_of_le hlevel (Nat.le_succ _))⟩

/-! ## Levels below a node -/

/-- The walk lists the levels one after the other. -/
theorem below_eq_flatMap_level (f : Forest) (n : Nat) (l : List NodeId) :
    f.below n l = (List.range n).flatMap fun k => f.level (k + 1) l := by
  induction n generalizing l with
  | zero => rfl
  | succ n ih =>
    rw [below_succ, ih, List.range_succ_eq_map, List.flatMap_cons, List.flatMap_map]
    rfl

namespace Flattened

variable (hf : f.Flattened)

include hf

theorem nodup_children (p : NodeId) : (f.children p).Nodup := by
  unfold children
  cases hm : f.nodes.get? p with
  | none => exact List.nodup_nil
  | some m => exact (hf.nodup p m hm).filter _

/-- Nodes with a child in common are one node. -/
theorem eq_of_mem_children (hp : x ∈ f.children p) (hq : x ∈ f.children q) : p = q :=
  Option.some.inj ((hf.parent?_of_mem_children hp).symm.trans (hf.parent?_of_mem_children hq))

/-- No node stands twice on a level. -/
theorem nodup_level (k : Nat) (id : NodeId) : (f.level k [id]).Nodup := by
  induction k with
  | zero => exact List.nodup_singleton id
  | succ k ih =>
    rw [level_succ, List.nodup_flatMap]
    refine ⟨fun p _ => hf.nodup_children p, ih.imp fun {p q} hne => ?_⟩
    exact fun x hp hq => hne (hf.eq_of_mem_children hp hq)

section

variable (hid : f.nodes.contains id = true)

include hid

/-- The distance from a node of a level up to the first one is the number of the level. -/
theorem distance_of_mem_level (hx : x ∈ f.level k [id]) : f.distance x id = .ok (some k) := by
  obtain ⟨hc, hmem, hlen⟩ := hf.mem_chain_of_mem_level hid hx
  rw [hf.distance_eq_some_iff hc hid, hf.ascend_iff]
  exact ⟨hmem, hlen⟩

/-- No node is among the descendants of a node twice. -/
theorem nodup_descendants : (f.descendants id).Nodup := by
  rw [descendants, below_eq_flatMap_level, List.nodup_flatMap]
  refine ⟨fun k _ => hf.nodup_level (k + 1) id, List.pairwise_lt_range.imp fun {j k} hlt => ?_⟩
  intro x hj hk
  obtain ⟨-, -, hj⟩ := hf.mem_chain_of_mem_level hid hj
  obtain ⟨-, -, hk⟩ := hf.mem_chain_of_mem_level hid hk
  omega

/-- Nearer descendants come first. -/
theorem sorted_descendants : (f.descendants id).Pairwise fun x y =>
    ∃ j k, f.distance x id = .ok (some j) ∧ f.distance y id = .ok (some k) ∧ j ≤ k := by
  rw [descendants, below_eq_flatMap_level, List.pairwise_flatMap]
  refine ⟨fun k _ => List.pairwise_of_forall_mem_list fun x hx y hy => ?_,
    List.pairwise_lt_range.imp fun {j k} hlt x hx y hy => ?_⟩
  · exact ⟨_, _, hf.distance_of_mem_level hid hx, hf.distance_of_mem_level hid hy, le_rfl⟩
  · exact ⟨_, _, hf.distance_of_mem_level hid hx, hf.distance_of_mem_level hid hy, by omega⟩

/-- The children come before all others. -/
theorem descendants_eq_children_append :
    ∃ rest, f.descendants id = f.children id ++ rest ∧
      (∀ x ∈ f.children id, f.distance x id = .ok (some 1)) ∧
      ∀ x ∈ rest, ∃ k, f.distance x id = .ok (some (k + 2)) := by
  obtain ⟨n, hn⟩ := SlotTable.contains_iff.1 hid
  obtain ⟨size, hsize⟩ : ∃ size, f.nodes.slots.size = size + 1 :=
    Nat.exists_eq_add_one.2 (Nat.zero_lt_of_lt (SlotTable.index_lt hn))
  refine ⟨f.below size (f.children id), ?_, fun x hx => ?_, fun x hx => ?_⟩
  · rw [descendants, hsize, below_succ, List.flatMap_singleton]
  · exact hf.distance_of_mem_level hid (k := 1) (by simpa [level] using hx)
  · obtain ⟨k, -, hx⟩ := mem_below_iff.1 hx
    exact ⟨k, hf.distance_of_mem_level hid (by simpa [level] using hx)⟩

/-- The parent of a descendant is the node itself or another descendant. -/
theorem parent?_of_mem_descendants (hx : x ∈ f.descendants id) :
    ∃ p, f.parent? x = some p ∧ (p = id ∨ p ∈ f.descendants id) := by
  obtain ⟨-, hmem, hne⟩ := (hf.mem_descendants_iff hid).1 hx
  cases hp : f.parent? x with
  | none =>
    rw [hf.chain_of_parent?_eq_none hp, List.mem_singleton] at hmem
    exact absurd hmem.symm hne
  | some p =>
    have hmem := ((hf.mem_chain_of_parent? hp).1 hmem).resolve_right (Ne.symm hne)
    refine ⟨p, rfl, or_iff_not_imp_left.2 fun hpid => ?_⟩
    exact (hf.mem_descendants_iff hid).2 ⟨hf.contains_of_parent? hp, hmem, hpid⟩

/-- A descendant comes after its parent. -/
theorem parent_before {before after : List NodeId}
    (h : f.descendants id = before ++ x :: after) :
    ∃ p, f.parent? x = some p ∧ (p = id ∨ p ∈ before) := by
  have hx : x ∈ f.descendants id := h ▸ List.mem_append_right _ List.mem_cons_self
  obtain ⟨p, hp, hpid | hmem⟩ := hf.parent?_of_mem_descendants hid hx
  · exact ⟨p, hp, Or.inl hpid⟩
  · refine ⟨p, hp, Or.inr ?_⟩
    rw [h, List.mem_append, List.mem_cons] at hmem
    have hone := (hf.distance_eq_some_iff (k := 1)
      ((hf.mem_descendants_iff hid).1 hx).1 (hf.contains_of_parent? hp)).2 (by simp [ascend, hp])
    obtain hmem | rfl | hafter := hmem
    · exact hmem
    · exact absurd (hf.mem_chain_self p) (hf.not_mem_chain_parent hp)
    · -- What comes after the node is no nearer, but its parent is nearer by one step.
      have hsorted := hf.sorted_descendants hid
      rw [h, List.pairwise_append] at hsorted
      obtain ⟨j, k, hj, hk, hle⟩ := List.rel_of_pairwise_cons hsorted.2.1 hafter
      have hadd := hf.distance_add hone hk
      rw [hj] at hadd
      cases hadd
      omega

end

end Flattened

/-! ## Mending chains -/

theorem foldl_look (f : Forest) (l : List NodeId) : l.foldl look f = f := by
  induction l with
  | nil => rfl
  | cons x l ih => exact ih

namespace Flattened

variable (hf : f.Flattened)

include hf

/-- Looking at the nodes below a node ends with its descendants. -/
theorem endsWalk_look (hid : f.nodes.contains id = true) :
    EndsWalk look f id f (f.descendants id) := by
  have hends := endsWalk_of_level keepsChildren_look (hf.level_eq_nil hid (Nat.le_succ _))
  rwa [foldl_look] at hends

/-- The nodes at and below a node keep their children when it moves. -/
theorem children_moved_of_mem_chain (hadm : f.Admits id parent) (hx : id ∈ f.chain x) :
    (f.moved id parent ancestors).children x = f.children x := by
  have hold : f.parent? id ≠ some x := fun h => hf.not_mem_chain_parent h hx
  have hnew : parent ≠ some x := fun h => (hadm x h).2 hx
  rw [← children_relinked_eq]
  exact children_relinked hold hnew ancestors

section

variable (hid : f.nodes.contains id = true)

include hid

/-- Mending the chains below a node that stays where it is goes through its descendants. -/
theorem endsWalk_propagate :
    EndsWalk (extendUnder id) f id (f.propagate id) (f.descendants id) :=
  endsWalk_of_level (keepsChildren_extendUnder id) (hf.level_eq_nil hid (Nat.le_succ _))

variable (hadm : f.Admits id parent)

include hadm

/-- The levels below a node are the same when it has moved. -/
theorem level_moved (k : Nat) : (f.moved id parent ancestors).level k [id] = f.level k [id] := by
  induction k with
  | zero => rfl
  | succ k ih =>
    rw [level_succ, level_succ, ih]
    refine List.flatMap_congr fun x hx => ?_
    exact hf.children_moved_of_mem_chain hadm (hf.mem_chain_of_mem_level hid hx).2.1

/-- The same nodes are below a node when it has moved, in the same order. -/
theorem descendants_moved :
    (f.moved id parent ancestors).descendants id = f.descendants id := by
  unfold descendants
  rw [(reworked_moved f id parent ancestors).size, below_eq_flatMap_level, below_eq_flatMap_level]
  exact List.flatMap_congr fun k _ => hf.level_moved hid hadm (k + 1)

/-- Mending the chains below a node that has moved goes through the same nodes. -/
theorem endsWalk_moved :
    EndsWalk (extendUnder id) (f.moved id parent ancestors) id (f.relinked id parent ancestors)
      (f.descendants id) := by
  have hlast : (f.moved id parent ancestors).level
      ((f.moved id parent ancestors).nodes.slots.size + 1) [id] = [] := by
    rw [(reworked_moved f id parent ancestors).size, hf.level_moved hid hadm]
    exact hf.level_eq_nil hid (Nat.le_succ _)
  have hdesc : (f.moved id parent ancestors).descendants id = f.descendants id :=
    hf.descendants_moved hid hadm
  have hends := endsWalk_of_level (keepsChildren_extendUnder id) hlast
  rw [hdesc] at hends
  rwa [Forest.relinked, propagate, hdesc]

end

/-- The chains are mended when a node is put under another one. -/
theorem endsWalk_setParent_some {change : Change}
    (h : f.setParent id (some p) = .ok (some change)) :
    EndsWalk (extendUnder id) (f.moved id (some p) (some (f.chain p ++ [id]))) id
      change.forest (f.descendants id) := by
  obtain ⟨hp, -⟩ | ⟨q, -, hp, hq, hi, -, -, hid, -, hforest⟩ := setParent_eq_some h
  · cases hp
  · obtain rfl := Option.some.inj hp
    exact hforest ▸ hf.endsWalk_moved hid (hf.admits_of_inherits hq hi)

/-- The chains are mended when a node becomes a root. -/
theorem endsWalk_setParent_none {change : Change}
    (h : f.setParent id none = .ok (some change)) :
    EndsWalk (extendUnder id) (f.moved id none (some [id])) id change.forest
      (f.descendants id) := by
  obtain ⟨-, hid, -, hforest⟩ | ⟨p, -, hp, -⟩ := setParent_eq_some h
  · exact hforest ▸ hf.endsWalk_moved hid nofun
  · cases hp

/-- The chains are mended when a node loses its parent. -/
theorem endsWalk_clearParent {change : Change} (h : f.clearParent id = .ok (some change)) :
    EndsWalk (extendUnder id) (f.moved id none none) id change.forest (f.descendants id) := by
  obtain ⟨hid, -, hforest⟩ := clearParent_eq_some h
  exact hforest ▸ hf.endsWalk_moved hid nofun

end Flattened

/-! ## What holds of every forest -/

/-- In every forest that requests grow from the empty one, as long as no slot has been emptied
`2 ^ 32` times, the walk below a live node ends, and has visited the descendants of the node then :
the other live nodes that inherit from it, each once, nearer ones first, and before all others its
children in their order. The walk that mends chains ends as well, where the node stays and where it
gets another parent or none. It has visited the same nodes in the same order, each after its parent,
and what it leaves is the forest that the request comes to. -/
theorem descendants_walked (maxDepth : Nat) (rs : List Request)
    (hu : (rs.foldl serve { maxDepth }).nodes.Unwrapped) {id : NodeId}
    (hid : (rs.foldl serve { maxDepth }).nodes.contains id = true) :
    let f : Forest := rs.foldl serve { maxDepth }
    (f.descend id = .ok (f.descendants id) ∧ EndsWalk look f id f (f.descendants id) ∧
      (f.descendants id).Nodup ∧
      (∀ x, x ∈ f.descendants id ↔ x ≠ id ∧ f.isA x id = .ok true) ∧
      (f.descendants id).Pairwise (fun x y => ∃ j k, f.distance x id = .ok (some j) ∧
        f.distance y id = .ok (some k) ∧ j ≤ k) ∧
      ∃ rest, f.descendants id = f.children id ++ rest ∧
        (∀ x ∈ f.children id, f.distance x id = .ok (some 1)) ∧
        ∀ x ∈ rest, ∃ k, f.distance x id = .ok (some (k + 2))) ∧
    (EndsWalk (extendUnder id) f id (f.propagate id) (f.descendants id) ∧
      (∀ p change, f.setParent id (some p) = .ok (some change) →
        EndsWalk (extendUnder id) (f.moved id (some p) (some (f.chain p ++ [id]))) id
          change.forest (f.descendants id)) ∧
      (∀ change, f.setParent id none = .ok (some change) →
        EndsWalk (extendUnder id) (f.moved id none (some [id])) id change.forest
          (f.descendants id)) ∧
      ∀ change, f.clearParent id = .ok (some change) →
        EndsWalk (extendUnder id) (f.moved id none none) id change.forest (f.descendants id)) ∧
    ∀ before x after, f.descendants id = before ++ x :: after →
      ∃ p, f.parent? x = some p ∧ (p = id ∨ p ∈ before) := by
  intro f
  have hf : f.Flattened := flattened_foldl_serve (flattened_empty maxDepth) rs hu
  refine ⟨⟨hf.descend_eq hid, hf.endsWalk_look hid, hf.nodup_descendants hid, fun x => ?_,
    hf.sorted_descendants hid, hf.descendants_eq_children_append hid⟩,
    ⟨hf.endsWalk_propagate hid, fun p change => hf.endsWalk_setParent_some,
      fun change => hf.endsWalk_setParent_none, fun change => hf.endsWalk_clearParent⟩,
    fun before x after => hf.parent_before hid⟩
  rw [hf.mem_descendants_iff hid, isA_eq_ok_true_iff, hf.inherits_iff]
  exact ⟨fun h => ⟨h.2.2, h.1, hid, h.2.1⟩, fun h => ⟨h.2.1, h.2.2.2, h.1⟩⟩

/-- A released subtype is still listed, and its slot is that of a subtype two steps below. -/
def thicket : List Request :=
  [.create ⟨0, 0⟩, .create ⟨1, 0⟩, .create ⟨2, 0⟩, .create ⟨3, 0⟩, .setParent ⟨1, 0⟩ (some ⟨0, 0⟩),
    .setParent ⟨2, 0⟩ (some ⟨0, 0⟩), .setParent ⟨3, 0⟩ (some ⟨0, 0⟩), .release ⟨1, 0⟩,
    .create ⟨4, 0⟩, .setParent ⟨1, 1⟩ (some ⟨3, 0⟩)]

/-- The subtype that took the slot of the released one is visited last. -/
theorem descendants_walked_thicket :
    (thicket.foldl serve { maxDepth := 4 }).nodes.Unwrapped ∧
      (thicket.foldl serve { maxDepth := 4 }).nodes.contains ⟨0, 0⟩ = true ∧
      (thicket.foldl serve { maxDepth := 4 }).descendants ⟨0, 0⟩ =
        [⟨2, 0⟩, ⟨3, 0⟩, ⟨1, 1⟩] ∧
      EndsWalk look (thicket.foldl serve { maxDepth := 4 }) ⟨0, 0⟩
        (thicket.foldl serve { maxDepth := 4 }) [⟨2, 0⟩, ⟨3, 0⟩, ⟨1, 1⟩] := by
  have hu : (thicket.foldl serve { maxDepth := 4 }).nodes.Unwrapped := by decide +kernel
  have hdesc : (thicket.foldl serve { maxDepth := 4 }).descendants ⟨0, 0⟩ =
      [⟨2, 0⟩, ⟨3, 0⟩, ⟨1, 1⟩] := rfl
  exact ⟨hu, rfl, hdesc, (descendants_walked 4 thicket hu rfl).1.2.1⟩

/-- Once a handle has come round, a walk visits a node that does not inherit from the one that lists
it, and if the root comes below that node, the walk that mends the chains goes round for ever. -/
theorem changeling_walked_for_ever :
    let f : Forest := changeling.foldl serve { maxDepth := 8 }
    (f.nodes.contains ⟨1, 0⟩ = true ∧ EndsWalk look f ⟨1, 0⟩ f [⟨2, 0⟩] ∧
      f.isA ⟨2, 0⟩ ⟨1, 0⟩ = .ok false) ∧
    f.nodes.contains ⟨0, 0⟩ = true ∧ f.setParent ⟨0, 0⟩ (some ⟨2, 0⟩) = .error .outOfFuel ∧
      ¬∃ g visited, EndsWalk (extendUnder ⟨0, 0⟩)
        (f.moved ⟨0, 0⟩ (some ⟨2, 0⟩) (some (f.chain ⟨2, 0⟩ ++ [⟨0, 0⟩]))) ⟨0, 0⟩ g visited := by
  rw [foldl_changeling]
  refine ⟨⟨rfl, rfl, rfl⟩, rfl, rfl, ?_⟩
  rw [exists_endsWalk_iff (keepsChildren_extendUnder _) rfl]
  rintro ⟨below, hbelow⟩
  cases hbelow

end Forest

end NameResolution
