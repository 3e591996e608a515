import Mathlib.Data.List.Chain
import Mathlib.Logic.Relation
import NameResolution.Forest
import NameResolution.Proofs.HandleSets

/-!
# Chains of a flattened forest

A forest is flattened if its three copies of the inheritance relation agree : every
live node with a parent is listed by the parent, once, and continues the parent's
chain by itself; a listed node that is live has the listing node as its parent
(`Flattened`). The last part hangs on handles that do not come back : a parent that lists
a released node lists a live one again when the slot has gone through all of its
generations. The other parts alone make a forest threaded (`Threaded`).

The chains of a threaded forest are what their name says. A chain ends with its node,
every node of a chain is live and has the beginning of the chain up to it as its own chain
(`chain_prefix_of_mem`), no node stands in a chain twice (`nodup_chain`), and
neighbours in a chain are parent and child (`isChain_chain`). Being in the chain of
a node is reached by parent links (`mem_chain_iff`), and indexing into the chain
decides it (`inherits_iff`).
-/

namespace NameResolution

namespace Forest

variable {f : Forest} {id p q x : NodeId} {n m : TypeNode}

/-! ## Reading nodes -/

theorem parent?_of_get? (hn : f.nodes.get? id = some n) : f.parent? id = n.parent := by
  simp [parent?, hn]

theorem parent?_eq_some_iff :
    f.parent? id = some p ↔ ∃ n, f.nodes.get? id = some n ∧ n.parent = some p := by
  simp [parent?, Option.bind_eq_some_iff]

theorem chain_of_get? (hn : f.nodes.get? id = some n) : f.chain id = n.ancestors.getD [id] := by
  simp [chain, hn]

theorem mem_children_iff :
    x ∈ f.children p ↔ ∃ m, f.nodes.get? p = some m ∧ x ∈ m.children.members ∧
      f.nodes.contains x = true := by
  unfold children
  cases f.nodes.get? p <;> simp [HandleSet.mem_live]

/-! ## Threaded and flattened forests -/

/-- Parent links and chains describe one forest, and every child is listed. -/
structure Threaded (f : Forest) : Prop where
  wellFormed : f.nodes.WellFormed
  nodup : ∀ p m, f.nodes.get? p = some m → m.children.members.Nodup
  /-- A node with a parent is listed there and continues its chain. -/
  linked : ∀ id n p, f.nodes.get? id = some n → n.parent = some p →
    ∃ m, f.nodes.get? p = some m ∧ id ∈ m.children.members ∧
      n.ancestors = some (f.chain p ++ [id])
  unlinked : ∀ id n, f.nodes.get? id = some n → n.parent = none →
    n.ancestors = none ∨ n.ancestors = some [id]

/-- Parent links, chains and lists of children describe one forest. -/
structure Flattened (f : Forest) : Prop extends Threaded f where
  /-- What is listed was a node once, so it does not come back as another one. -/
  issued : ∀ p m, f.nodes.get? p = some m → ∀ c ∈ m.children.members, f.nodes.Issued c
  /-- What is listed and live has the listing node as its parent. -/
  listed : ∀ p m c, f.nodes.get? p = some m → c ∈ m.children.members →
    f.nodes.contains c = true → f.parent? c = some p

theorem threaded_empty (maxDepth : Nat) : Threaded { maxDepth } := by
  constructor <;> simp [SlotTable.get?, SlotTable.slot?, SlotTable.wellFormed_empty]

theorem flattened_empty (maxDepth : Nat) : Flattened { maxDepth } := by
  refine ⟨threaded_empty maxDepth, ?_, ?_⟩ <;> simp [SlotTable.get?, SlotTable.slot?]

/-- A live node that is listed as a child has the one that lists it as its parent. -/
theorem Flattened.parent?_of_mem_children (hf : f.Flattened) (hx : x ∈ f.children p) :
    f.parent? x = some p := by
  obtain ⟨m, hm, hxm, hc⟩ := mem_children_iff.1 hx
  exact hf.listed p m x hm hxm hc

namespace Threaded

variable (hf : f.Threaded)

include hf

theorem mem_children_of_parent? (hp : f.parent? x = some p) : x ∈ f.children p := by
  obtain ⟨n, hn, hnp⟩ := parent?_eq_some_iff.1 hp
  obtain ⟨m, hm, hx, -⟩ := hf.linked x n p hn hnp
  exact mem_children_iff.2 ⟨m, hm, hx, SlotTable.contains_of_get? hn⟩

/-- A parent lists its child once. -/
theorem count_children (hp : f.parent? x = some p) : (f.children p).count x = 1 := by
  refine List.count_eq_one_of_mem ?_ (hf.mem_children_of_parent? hp)
  unfold children
  cases hm : f.nodes.get? p with
  | none => simp
  | some m => exact (hf.nodup p m hm).filter _

theorem contains_of_parent? (hp : f.parent? x = some p) : f.nodes.contains p = true := by
  obtain ⟨m, hm, -⟩ := mem_children_iff.1 (hf.mem_children_of_parent? hp)
  exact SlotTable.contains_of_get? hm

/-- The chain of a node with a parent. -/
theorem chain_of_parent? (hp : f.parent? id = some p) : f.chain id = f.chain p ++ [id] := by
  obtain ⟨n, hn, hnp⟩ := parent?_eq_some_iff.1 hp
  obtain ⟨-, -, -, ha⟩ := hf.linked id n p hn hnp
  rw [chain_of_get? hn, ha, Option.getD_some]

/-- The chain of a node without a parent, and of a released one. -/
theorem chain_of_parent?_eq_none (hp : f.parent? id = none) : f.chain id = [id] := by
  cases hn : f.nodes.get? id with
  | none => simp [chain, hn]
  | some n =>
    rw [parent?_of_get? hn] at hp
    rcases hf.unlinked id n hn hp with ha | ha <;> simp [chain_of_get? hn, ha]

/-- A chain ends with its node. -/
theorem chain_eq_append (id : NodeId) : ∃ l, f.chain id = l ++ [id] := by
  cases hp : f.parent? id with
  | none => exact ⟨[], by simp [hf.chain_of_parent?_eq_none hp]⟩
  | some p => exact ⟨f.chain p, hf.chain_of_parent? hp⟩

theorem mem_chain_self (id : NodeId) : id ∈ f.chain id := by
  obtain ⟨l, hl⟩ := hf.chain_eq_append id
  simp [hl]

theorem length_chain_pos (id : NodeId) : 0 < (f.chain id).length :=
  List.length_pos_of_mem (hf.mem_chain_self id)

/-- Induction up the parent links of a node : they end, since chains get shorter. -/
theorem parent_induction {motive : NodeId → Prop} (id : NodeId)
    (root : ∀ id, f.parent? id = none → motive id)
    (child : ∀ id p, f.parent? id = some p → motive p → motive id) : motive id := by
  induction hk : (f.chain id).length using Nat.strong_induction_on generalizing id with
  | _ k ih =>
    cases hp : f.parent? id with
    | none => exact root id hp
    | some p =>
      refine child id p hp (ih (f.chain p).length ?_ p rfl)
      rw [← hk, hf.chain_of_parent? hp]
      simp

/-- A node of a chain has the beginning of the chain up to it as its own chain. -/
theorem chain_prefix_of_mem (hx : x ∈ f.chain id) : List.IsPrefix (f.chain x) (f.chain id) := by
  induction id using hf.parent_induction with
  | root id hp =>
    rw [hf.chain_of_parent?_eq_none hp, List.mem_singleton] at hx
    exact hx ▸ List.prefix_refl _
  | child id p hp ih =>
    rw [hf.chain_of_parent? hp, List.mem_append, List.mem_singleton] at hx
    rcases hx with hx | rfl
    · rw [hf.chain_of_parent? hp]
      exact (ih hx).trans (List.prefix_append _ _)
    · exact List.prefix_refl _

/-- Every node of the chain of a live node is live. -/
theorem contains_of_mem_chain (hc : f.nodes.contains id = true) (hx : x ∈ f.chain id) :
    f.nodes.contains x = true := by
  induction id using hf.parent_induction with
  | root id hp =>
    rw [hf.chain_of_parent?_eq_none hp, List.mem_singleton] at hx
    rwa [hx]
  | child id p hp ih =>
    rw [hf.chain_of_parent? hp, List.mem_append, List.mem_singleton] at hx
    rcases hx with hx | rfl
    · exact ih (hf.contains_of_parent? hp) hx
    · exact hc

/-- No node stands in the chain of its parent. -/
theorem not_mem_chain_parent (hp : f.parent? id = some p) : id ∉ f.chain p := by
  intro hmem
  have hle := (hf.chain_prefix_of_mem hmem).length_le
  rw [hf.chain_of_parent? hp, List.length_append, List.length_singleton] at hle
  omega

theorem nodup_chain (id : NodeId) : (f.chain id).Nodup := by
  induction id using hf.parent_induction with
  | root id hp => simp [hf.chain_of_parent?_eq_none hp]
  | child id p hp ih =>
    rw [hf.chain_of_parent? hp]
    refine List.nodup_append.2 ⟨ih, by simp, ?_⟩
    rintro x hx _ hy rfl
    obtain rfl := List.mem_singleton.1 hy
    exact hf.not_mem_chain_parent hp hx

/-- Nodes that stand in each other's chains are one node. -/
theorem eq_of_mem_chain (hx : x ∈ f.chain id) (hid : id ∈ f.chain x) : x = id := by
  have h := hf.chain_prefix_of_mem hx
  have heq := h.eq_of_length_le (hf.chain_prefix_of_mem hid).length_le
  obtain ⟨l, hl⟩ := hf.chain_eq_append x
  obtain ⟨l', hl'⟩ := hf.chain_eq_append id
  rw [hl, hl'] at heq
  simpa using (List.append_inj' heq rfl).2

theorem mem_chain_trans (hx : x ∈ f.chain q) (hq : q ∈ f.chain id) : x ∈ f.chain id :=
  (hf.chain_prefix_of_mem hq).subset hx

/-- What stands in a chain is the node itself, or stands in the chain of the parent. -/
theorem mem_chain_of_parent? (hp : f.parent? id = some p) :
    x ∈ f.chain id ↔ x ∈ f.chain p ∨ x = id := by
  rw [hf.chain_of_parent? hp, List.mem_append, List.mem_singleton]

/-- A chain is the path of parent links that ends at the node. -/
theorem isChain_chain (id : NodeId) :
    (f.chain id).IsChain fun a b => f.parent? b = some a := by
  induction id using hf.parent_induction with
  | root id hp => simp [hf.chain_of_parent?_eq_none hp]
  | child id p hp ih =>
    obtain ⟨l, hl⟩ := hf.chain_eq_append p
    rw [hf.chain_of_parent? hp]
    refine List.isChain_append.2 ⟨ih, List.isChain_singleton _, ?_⟩
    intro a ha b hb
    rw [hl] at ha
    simp only [List.getLast?_append, List.getLast?_singleton, Option.some_or,
      Option.mem_some_iff, List.head?_cons] at ha hb
    rw [← ha, ← hb, hp]

/-- A chain begins with a node that has no parent. -/
theorem parent?_head_chain (id : NodeId) :
    ∃ r, (f.chain id).head? = some r ∧ f.parent? r = none := by
  induction id using hf.parent_induction with
  | root id hp => exact ⟨id, by simp [hf.chain_of_parent?_eq_none hp], hp⟩
  | child id p hp ih =>
    obtain ⟨r, hr, hn⟩ := ih
    exact ⟨r, by simp [hf.chain_of_parent? hp, hr], hn⟩

/-- The nodes of a chain are those that parent links lead to. -/
theorem mem_chain_iff :
    x ∈ f.chain id ↔ Relation.ReflTransGen (fun a b => f.parent? a = some b) id x := by
  constructor
  · intro hx
    induction id using hf.parent_induction with
    | root id hp =>
      rw [hf.chain_of_parent?_eq_none hp, List.mem_singleton] at hx
      rw [hx]
    | child id p hp ih =>
      rcases (hf.mem_chain_of_parent? hp).1 hx with hx | rfl
      · exact (ih hx).head hp
      · exact .refl
  · intro h
    induction h using Relation.ReflTransGen.head_induction_on with
    | refl => exact hf.mem_chain_self x
    | head hp _ ih => exact (hf.mem_chain_of_parent? hp).2 (Or.inl ih)

/-- Parent links lead from no node back to it. -/
theorem not_transGen_self (id : NodeId) :
    ¬Relation.TransGen (fun a b => f.parent? a = some b) id id := by
  intro h
  obtain ⟨p, hp, h'⟩ := Relation.TransGen.head'_iff.1 h
  exact hf.not_mem_chain_parent hp (hf.mem_chain_iff.2 h')

/-- Indexing into the chain decides whether a node stands in it. -/
theorem inherits_iff : f.inherits id x = true ↔ x ∈ f.chain id := by
  unfold inherits
  constructor
  · intro h
    exact List.mem_of_getElem? (by simpa using h)
  · intro hx
    obtain ⟨l, hl⟩ := hf.chain_eq_append x
    obtain ⟨r, hr⟩ := hf.chain_prefix_of_mem hx
    rw [← hr, hl]
    simp

/-- Chains are no longer than the table. -/
theorem length_chain_le (hc : f.nodes.contains id = true) :
    (f.chain id).length ≤ f.nodes.slots.size :=
  SlotTable.length_le_of_nodup (hf.nodup_chain id) fun _ => hf.contains_of_mem_chain hc

end Threaded

end Forest

end NameResolution
