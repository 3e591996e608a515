import NameResolution.Proofs.Forest.Grafting

/-!
# Forests that agree on what is live

Two forests agree if the same nodes are live in both, with the same links, chains and live
subtypes (`Agrees`). How often a slot has been used does not count, nor what is stale in a list.

A node that has just been made is one node more (`Adds`), whether it has been put under another
one or not (`adds_insert`, `Supported.adds_relinked`). It can be released, and what it leaves agrees
with what there was before (`Adds.agrees_erase`).
-/

namespace NameResolution

/-- A node but for the list of its subtypes. -/
def TypeNode.bare (n : TypeNode) : TypeNode :=
  { n with children := {} }

namespace Forest

variable {f g u : Forest} {p x : NodeId} {e : EntityId} {parent : Option NodeId}

/-! ## Agreement -/

/-- The same nodes are live, with the same links, chains and live subtypes in the same order. -/
structure Agrees (f g : Forest) : Prop where
  node : ∀ x, (g.nodes.get? x).map TypeNode.bare = (f.nodes.get? x).map TypeNode.bare
  children : ∀ x, g.children x = f.children x
  size : g.nodes.size = f.nodes.size
  maxDepth : g.maxDepth = f.maxDepth

theorem Agrees.refl (f : Forest) : f.Agrees f :=
  ⟨fun _ => rfl, fun _ => rfl, rfl, rfl⟩

theorem Agrees.trans (h : f.Agrees g) (h' : g.Agrees u) : f.Agrees u :=
  ⟨fun x => (h'.node x).trans (h.node x), fun x => (h'.children x).trans (h.children x),
    h'.size.trans h.size, h'.maxDepth.trans h.maxDepth⟩

/-- Chains do not depend on the lists of subtypes. -/
theorem chain_congr
    (h : (g.nodes.get? x).map TypeNode.bare = (f.nodes.get? x).map TypeNode.bare) :
    g.chain x = f.chain x := by
  have hancestors (k : Forest) : (k.nodes.get? x).bind TypeNode.ancestors =
      ((k.nodes.get? x).map TypeNode.bare).bind TypeNode.ancestors := by
    rw [Option.bind_map]
    rfl
  unfold chain
  rw [hancestors g, hancestors f, h]

theorem Agrees.chain (h : f.Agrees g) (x : NodeId) : g.chain x = f.chain x :=
  chain_congr (h.node x)

/-! ## One node more -/

/-- There is one node more, in a slot that was free, and its supertype lists it last, cleared of
what is stale. The other nodes are as they were. -/
structure Adds (f g : Forest) (e : EntityId) (parent : Option NodeId) : Prop where
  fresh : f.nodes.get? f.nodes.next = none
  node : ∀ x, g.nodes.get? x =
    if x = f.nodes.next then
      some { owner := e, parent, ancestors := parent.map (f.chain · ++ [x]) }
    else (f.nodes.get? x).map fun n =>
      if parent = some x then
        { n with children := (n.children.prune g.nodes).insert f.nodes.next }
      else n
  size : g.nodes.size = f.nodes.size + 1
  maxDepth : g.maxDepth = f.maxDepth

namespace Adds

variable (h : f.Adds g e parent)

include h

theorem get?_next : g.nodes.get? f.nodes.next =
    some { owner := e, parent, ancestors := parent.map (f.chain · ++ [f.nodes.next]) } := by
  rw [h.node, if_pos rfl]

theorem ne_next {n : TypeNode} (hn : f.nodes.get? x = some n) : x ≠ f.nodes.next := by
  rintro rfl
  cases h.fresh.symm.trans hn

/-- But for the new node, everything apart from the children is as it was. -/
theorem bare_of_ne (hx : x ≠ f.nodes.next) :
    (g.nodes.get? x).map TypeNode.bare = (f.nodes.get? x).map TypeNode.bare := by
  rw [h.node, if_neg hx, Option.map_map]
  congr 1
  funext n
  by_cases hp : parent = some x <;> simp [hp, TypeNode.bare]

theorem chain_eq {n : TypeNode} (hn : f.nodes.get? x = some n) : g.chain x = f.chain x :=
  chain_congr (h.bare_of_ne (h.ne_next hn))

theorem contains_of_contains (hx : f.nodes.contains x = true) : g.nodes.contains x = true := by
  obtain ⟨n, hn⟩ := SlotTable.contains_iff.1 hx
  rw [SlotTable.contains, h.node, if_neg (h.ne_next hn), hn]
  rfl

/-- The subtypes that were live before are listed as before. -/
theorem live_eq {n m : TypeNode} (hn : f.nodes.get? x = some n) (hm : g.nodes.get? x = some m)
    (hx : x ≠ f.nodes.next) : m.children.live f.nodes = n.children.live f.nodes := by
  rw [h.node, if_neg hx, hn, Option.map_some] at hm
  obtain rfl := Option.some.inj hm
  have hnew : f.nodes.contains f.nodes.next = false := by
    rw [SlotTable.contains, h.fresh]
    rfl
  split_ifs with hp
  · exact (HandleSet.live_insert_of_stale hnew).trans
      (HandleSet.live_prune_of_le fun _ => h.contains_of_contains)
  · rfl

/-- The new node can be released. -/
theorem isReleasable : g.isReleasable f.nodes.next = true := by
  rw [Forest.isReleasable, SlotTable.contains_of_get? h.get?_next, children, h.get?_next]
  rfl

theorem get?_erase (x : NodeId) : (g.erase f.nodes.next).nodes.get? x =
    if x = f.nodes.next then none else g.nodes.get? x := by
  rw [erase, if_pos h.isReleasable, SlotTable.get?_erase]

/-- When the new node is released, everything apart from the children is as it was. -/
theorem bare_erase (x : NodeId) : ((g.erase f.nodes.next).nodes.get? x).map TypeNode.bare =
    (f.nodes.get? x).map TypeNode.bare := by
  rw [h.get?_erase]
  split_ifs with hx
  · rw [hx, h.fresh]
  · exact h.bare_of_ne hx

/-- When the new node is released, the live children are as they were. -/
theorem children_erase (x : NodeId) : (g.erase f.nodes.next).children x = f.children x := by
  have hcontains : (g.erase f.nodes.next).nodes.contains = f.nodes.contains := by
    funext x
    have := congrArg Option.isSome (h.bare_erase x)
    rwa [Option.isSome_map, Option.isSome_map] at this
  have hx := h.bare_erase x
  unfold children
  cases hf : f.nodes.get? x with
  | none =>
    rw [hf, Option.map_none, Option.map_eq_none_iff] at hx
    rw [hx]
  | some n =>
    have hne := h.ne_next hf
    rw [hf, Option.map_some, Option.map_eq_some_iff] at hx
    obtain ⟨m, hm, -⟩ := hx
    have hm' := hm
    rw [h.get?_erase, if_neg hne] at hm'
    rw [hm]
    exact (congrArg (m.children.members.filter ·) hcontains).trans (h.live_eq hf hm' hne)

/-- Without the new node everything is as before. -/
theorem agrees_erase : f.Agrees (g.erase f.nodes.next) := by
  refine ⟨h.bare_erase, h.children_erase, ?_, ?_⟩
  · rw [erase, if_pos h.isReleasable]
    show (g.nodes.erase f.nodes.next).size = f.nodes.size
    rw [SlotTable.size_erase (SlotTable.contains_of_get? h.get?_next), h.size, Nat.add_sub_cancel]
  · rw [erase, if_pos h.isReleasable]
    exact h.maxDepth

end Adds

/-- To create a node adds it without a parent. -/
theorem adds_insert (hw : f.nodes.WellFormed) (e : EntityId) : f.Adds (f.insert e) e none := by
  refine ⟨SlotTable.get?_next hw, fun x => ?_, SlotTable.size_insert _, rfl⟩
  rw [get?_insert hw]
  refine if_congr Iff.rfl rfl ?_
  cases f.nodes.get? x <;> rfl

/-- A new node that is put under a live one is one node more. -/
theorem Supported.adds_relinked (hf : f.Supported) (hp : f.nodes.contains p = true)
    (e : EntityId) :
    f.Adds ((f.insert e).relinked f.nodes.next (some p) (some (f.chain p ++ [f.nodes.next])))
      e (some p) := by
  have hre := reworked_relinked (f.insert e) f.nodes.next (some p)
    (some (f.chain p ++ [f.nodes.next]))
  have hprune := fun s : HandleSet .node => HandleSet.prune_congr
    (contains_relinked (f.insert e) f.nodes.next (some p) (some (f.chain p ++ [f.nodes.next]))) s
  have hparent : (f.insert e).parent? f.nodes.next = none := by
    rw [parent?_of_get? (get?_insert_next hf.wellFormed e)]
  have hne : p ≠ f.nodes.next := hf.ne_next hp
  refine ⟨SlotTable.get?_next hf.wellFormed, fun x => ?_,
    hre.count.trans (SlotTable.size_insert _), hre.maxDepth⟩
  simp only [hprune]
  rw [relinked_next hf.wellFormed hp, get?_moved, get?_insert hf.wellFormed]
  by_cases hx : x = f.nodes.next
  · simp [movedChildren, hparent, hx, hne]
  · rw [if_neg hx, if_neg hx]
    congr 1
    funext n
    by_cases hxp : p = x <;> simp [movedChildren, hparent, hx, hxp]

end Forest

end NameResolution
