import NameResolution.Proofs.Forest.Relinking

/-!
# The forest stays flattened

`serve` answers one request to a forest : a new node, a supertype, no supertype, or
the release of a node. A refused request leaves the forest alone. Every request keeps
a forest flattened (`Flattened.serve`), as long as no slot has been emptied so often that
its generation has come round, so every forest grown from the empty one is flattened
(`flattened_foldl_serve`).

`chains_follow_parents` reads that off node by node : parents are live and list their
children once, chains continue those of the parents, and following parent links from
a node goes through its chain, ends, and meets no node twice.
-/

namespace NameResolution

namespace Forest

variable {f g : Forest} {id p x : NodeId} {n : TypeNode}

/-! ## Requests -/

/-- What can be asked of a forest. -/
inductive Request where
  | create (owner : EntityId)
  | setParent (id : NodeId) (parent : Option NodeId)
  | clearParent (id : NodeId)
  | release (id : NodeId)

/-- The forest after a request; one that is refused, or has no effect, changes nothing. -/
def serve (f : Forest) : Request → Forest
  | .create owner => f.insert owner
  | .setParent id parent =>
    match f.setParent id parent with
    | .ok (some change) => change.forest
    | _ => f
  | .clearParent id =>
    match f.clearParent id with
    | .ok (some change) => change.forest
    | _ => f
  | .release id => f.erase id

/-! ## What granted requests do -/

theorem node_eq_ok_iff : f.node id = .ok n ↔ f.nodes.get? id = some n := by
  unfold node
  cases f.nodes.get? id <;> simp

theorem isA_eq_ok {b : Bool} (h : f.isA id x = .ok b) :
    f.nodes.contains id = true ∧ f.nodes.contains x = true ∧ f.inherits id x = b := by
  unfold isA node at h
  cases hi : f.nodes.get? id with
  | none => simp [hi, bind, Except.bind] at h
  | some n =>
    cases hx : f.nodes.get? x with
    | none => simp [hi, hx, bind, Except.bind] at h
    | some m =>
      refine ⟨SlotTable.contains_of_get? hi, SlotTable.contains_of_get? hx, ?_⟩
      simpa [hi, hx, bind, Except.bind, pure, Except.pure] using h

/-- A computation that goes on with a value had one. -/
theorem exists_of_bind_eq_ok {α β : Type} {r : Except Stop α} {k : α → Except Stop β} {b : β}
    (h : r >>= k = .ok b) : ∃ a, r = .ok a ∧ k a = .ok b := by
  cases r with
  | error stop => cases h
  | ok a => exact ⟨a, rfl, h⟩

/-- A node has got a parent and a chain as was asked for, and the chains below it have been mended;
the walk below it has come to its end. -/
structure Relinks (f : Forest) (id : NodeId) (parent : Option NodeId)
    (ancestors : Option (List NodeId)) (g : Forest) : Prop where
  contains : f.nodes.contains id = true
  ends : ∃ below, (f.moved id parent ancestors).descend id = .ok below
  forest_eq : g = f.relinked id parent ancestors

/-- A change that is made under a live node relinks it. -/
theorem relinks_of_relink {parent : Option NodeId} {ancestors : Option (List NodeId)}
    {opening : Note} {change : Change} (hid : f.nodes.contains id = true)
    (h : f.relink id parent ancestors opening = .ok change) :
    f.Relinks id parent ancestors change.forest := by
  obtain ⟨below, hbelow, h⟩ := exists_of_bind_eq_ok h
  cases h
  exact ⟨hid, ⟨below, hbelow⟩, rfl⟩

/-- A supertype is left alone if it is the one asked for. Otherwise a live node is relinked, under a
live parent that is not below it. -/
theorem setParent_cases {parent : Option NodeId} {change : Option Change}
    (h : f.setParent id parent = .ok change) :
    change = none ∧ f.parent? id = parent ∨
    ∃ c, change = some c ∧
      (parent = none ∧ f.Relinks id none (some [id]) c.forest ∨
        ∃ p height, parent = some p ∧ f.nodes.contains p = true ∧ f.inherits p id = false ∧
          f.subtreeHeight id = .ok height ∧ (f.chain p).length + height ≤ f.maxDepth ∧
          f.Relinks id (some p) (some (f.chain p ++ [id])) c.forest) := by
  unfold setParent at h
  obtain ⟨n, hn, h⟩ := exists_of_bind_eq_ok h
  have hid := SlotTable.contains_of_get? (node_eq_ok_iff.1 hn)
  split_ifs at h with hsame
  · cases h
    exact Or.inl ⟨rfl, (parent?_of_get? (node_eq_ok_iff.1 hn)).trans hsame.1⟩
  right
  cases parent with
  | none =>
    obtain ⟨c, hc, h⟩ := exists_of_bind_eq_ok h
    cases h
    exact ⟨c, rfl, Or.inl ⟨rfl, relinks_of_relink hid hc⟩⟩
  | some p =>
    obtain ⟨b, hb, h⟩ := exists_of_bind_eq_ok h
    obtain ⟨hp, -, hinherits⟩ := isA_eq_ok hb
    cases b with
    | true =>
      obtain ⟨owner, -, h⟩ := exists_of_bind_eq_ok h
      cases h
    | false =>
      obtain ⟨height, hheight, h⟩ := exists_of_bind_eq_ok h
      dsimp only at h
      split_ifs at h with hlen
      · cases h
      obtain ⟨c, hc, h⟩ := exists_of_bind_eq_ok h
      cases h
      exact ⟨c, rfl, Or.inr ⟨p, height, rfl, hp, hinherits, hheight, not_lt.1 hlen,
        relinks_of_relink hid hc⟩⟩

/-- A parent that is granted relinks the node : as a declared root, or under a live node that does
not inherit from it, with all chains within the limit. -/
theorem setParent_eq_some {parent : Option NodeId} {change : Change}
    (h : f.setParent id parent = .ok (some change)) :
    parent = none ∧ f.Relinks id none (some [id]) change.forest ∨
      ∃ p height, parent = some p ∧ f.nodes.contains p = true ∧ f.inherits p id = false ∧
        f.subtreeHeight id = .ok height ∧ (f.chain p).length + height ≤ f.maxDepth ∧
        f.Relinks id (some p) (some (f.chain p ++ [id])) change.forest := by
  obtain ⟨hnone, -⟩ | ⟨c, hc, hcases⟩ := setParent_cases h
  · cases hnone
  · cases hc
    exact hcases

/-- A request without effect asks for the parent that the node has. -/
theorem setParent_eq_none {parent : Option NodeId} (h : f.setParent id parent = .ok none) :
    f.parent? id = parent := by
  obtain ⟨-, hparent⟩ | ⟨c, hc, -⟩ := setParent_cases h
  · exact hparent
  · cases hc

/-- A supertype that is taken back was none, or a live node is relinked under none. -/
theorem clearParent_cases {change : Option Change} (h : f.clearParent id = .ok change) :
    change = none ∧ f.parent? id = none ∨
      ∃ c, change = some c ∧ f.Relinks id none none c.forest := by
  unfold clearParent at h
  obtain ⟨n, hn, h⟩ := exists_of_bind_eq_ok h
  have hget := node_eq_ok_iff.1 hn
  split_ifs at h with hnone
  · cases h
    exact Or.inl ⟨rfl, (parent?_of_get? hget).trans (Option.isNone_iff_eq_none.1 hnone.1)⟩
  · obtain ⟨c, hc, h⟩ := exists_of_bind_eq_ok h
    cases h
    exact Or.inr ⟨c, rfl, relinks_of_relink (SlotTable.contains_of_get? hget) hc⟩

/-- To take the parent back makes the node a root without a chain. -/
theorem clearParent_eq_some {change : Change} (h : f.clearParent id = .ok (some change)) :
    f.Relinks id none none change.forest := by
  obtain ⟨hnone, -⟩ | ⟨c, hc, hrelinks⟩ := clearParent_cases h
  · cases hnone
  · cases hc
    exact hrelinks

theorem clearParent_eq_none (h : f.clearParent id = .ok none) : f.parent? id = none := by
  obtain ⟨-, hparent⟩ | ⟨c, hc, -⟩ := clearParent_cases h
  · exact hparent
  · cases hc

/-! ## Every request keeps the forest flattened -/

/-- Creating a node changes what is read at its handle alone. -/
theorem get?_insert (hw : f.nodes.WellFormed) (owner : EntityId) (x : NodeId) :
    (f.insert owner).nodes.get? x = if x = f.nodes.next then some { owner } else f.nodes.get? x :=
  SlotTable.get?_insert hw _ x

/-- Releasing leaves the other nodes as they are. -/
theorem of_get?_erase (h : (f.erase id).nodes.get? x = some n) : f.nodes.get? x = some n := by
  unfold erase at h
  split_ifs at h
  · rw [SlotTable.get?_erase] at h
    split_ifs at h
    exact h
  · exact h

/-- A node with a child is not released. -/
theorem get?_erase_of_mem_children (id : NodeId) (hx : x ∈ f.children p) :
    (f.erase id).nodes.get? p = f.nodes.get? p := by
  unfold erase
  split_ifs with hr
  · simp only [isReleasable, Bool.and_eq_true, List.isEmpty_iff] at hr
    rw [SlotTable.get?_erase, if_neg]
    rintro rfl
    rw [hr.2] at hx
    cases hx
  · rfl

namespace Threaded

variable (hf : f.Threaded)

include hf

theorem insert (owner : EntityId) : (f.insert owner).Threaded := by
  have hw := hf.wellFormed
  have hget := get?_insert hw owner
  have hchain : ∀ p, p ≠ f.nodes.next → (f.insert owner).chain p = f.chain p := by
    intro p hp
    simp [chain, hget, hp]
  refine ⟨hw.insert _, ?_, ?_, ?_⟩
  · intro p m hm
    rw [hget] at hm
    split_ifs at hm with hp
    · obtain rfl := Option.some.inj hm
      simp
    · exact hf.nodup p m hm
  · intro x m p hm hp
    rw [hget] at hm
    split_ifs at hm with hx
    · obtain rfl := Option.some.inj hm
      simp at hp
    · obtain ⟨k, hk, hmem, ha⟩ := hf.linked x m p hm hp
      have hne := SlotTable.ne_next hw hk
      exact ⟨k, by rw [hget, if_neg hne, hk], hmem, by rw [hchain p hne, ha]⟩
  · intro x m hm hp
    rw [hget] at hm
    split_ifs at hm with hx
    · obtain rfl := Option.some.inj hm
      exact Or.inl rfl
    · exact hf.unlinked x m hm hp

theorem erase (id : NodeId) : (f.erase id).Threaded := by
  refine ⟨?_, ?_, ?_, ?_⟩
  · unfold Forest.erase
    split_ifs
    · exact hf.wellFormed.erase id
    · exact hf.wellFormed
  · exact fun p m hm => hf.nodup p m (of_get?_erase hm)
  · intro x m p hm hp
    have hm := of_get?_erase hm
    obtain ⟨k, hk, hmem, ha⟩ := hf.linked x m p hm hp
    have hkeep := get?_erase_of_mem_children id
      (mem_children_iff.2 ⟨k, hk, hmem, SlotTable.contains_of_get? hm⟩)
    refine ⟨k, hkeep.trans hk, hmem, ?_⟩
    rw [ha, chain, chain, hkeep]
  · exact fun x m hm hp => hf.unlinked x m (of_get?_erase hm) hp

/-- A parent that is granted is not below the node. -/
theorem admits_of_inherits (hp : f.nodes.contains p = true) (hi : f.inherits p id = false) :
    f.Admits id (some p) := by
  rintro _ ⟨⟩
  refine ⟨hp, fun hmem => ?_⟩
  rw [hf.inherits_iff.2 hmem] at hi
  cases hi

end Threaded

namespace Flattened

variable (hf : f.Flattened)

include hf

/-- A new node, whose handle has never been listed, keeps a forest flattened. -/
theorem insert (hu : f.nodes.Unwrapped) (owner : EntityId) : (f.insert owner).Flattened := by
  have hw := hf.wellFormed
  have hget := get?_insert hw owner
  refine ⟨hf.toThreaded.insert owner, ?_, ?_⟩
  · intro p m hm c hc
    rw [hget] at hm
    split_ifs at hm with hp
    · obtain rfl := Option.some.inj hm
      simp at hc
    · exact (SlotTable.extends_insert hw _).issued c (hf.issued p m hm c hc)
  · intro p m c hm hc hlive
    rw [hget] at hm
    split_ifs at hm with hp
    · obtain rfl := Option.some.inj hm
      simp at hc
    · -- What is listed was issued before, so it is not the new node.
      have hne : c ≠ f.nodes.next := by
        rintro rfl
        exact SlotTable.not_issued_next hw hu (hf.issued p m hm _ hc)
      rw [SlotTable.contains, hget, if_neg hne] at hlive
      rw [Forest.parent?, hget, if_neg hne]
      exact hf.listed p m c hm hc hlive

/-- A released node, which has no children, leaves a forest flattened. -/
theorem erase (id : NodeId) : (f.erase id).Flattened := by
  refine ⟨hf.toThreaded.erase id, ?_, ?_⟩
  · intro p m hm c hc
    have hissued := hf.issued p m (of_get?_erase hm) c hc
    unfold Forest.erase
    split_ifs
    · exact (SlotTable.extends_erase id).issued c hissued
    · exact hissued
  · intro p m c hm hc hlive
    obtain ⟨k, hk⟩ := SlotTable.contains_iff.1 hlive
    rw [parent?_of_get? hk, ← parent?_of_get? (of_get?_erase hk)]
    exact hf.listed p m c (of_get?_erase hm) hc (SlotTable.contains_of_get? (of_get?_erase hk))

/-- A parent that is granted keeps a forest flattened. -/
theorem setParent {parent : Option NodeId} {change : Change}
    (h : f.setParent id parent = .ok (some change)) : change.forest.Flattened := by
  obtain ⟨rfl, hid, -, hforest⟩ | ⟨p, -, rfl, hp, hi, -, -, hid, -, hforest⟩ := setParent_eq_some h
  · exact hforest ▸ hf.relinked hid nofun nofun fun _ => Or.inr rfl
  · rw [hforest]
    refine hf.relinked hid (hf.admits_of_inherits hp hi) ?_ nofun
    rintro _ ⟨⟩
    rfl

/-- A parent that is taken back leaves a forest flattened. -/
theorem clearParent {change : Change} (h : f.clearParent id = .ok (some change)) :
    change.forest.Flattened := by
  obtain ⟨hid, -, hforest⟩ := clearParent_eq_some h
  exact hforest ▸ hf.relinked hid nofun nofun fun _ => Or.inl rfl

end Flattened

/-- A change is granted by relinking, which keeps the set of nodes. -/
theorem reworked_of_setParent {parent : Option NodeId} {change : Change}
    (h : f.setParent id parent = .ok (some change)) : f.Reworked change.forest := by
  obtain ⟨-, -, -, hforest⟩ | ⟨p, -, -, -, -, -, -, -, -, hforest⟩ := setParent_eq_some h
  · exact hforest ▸ reworked_relinked f id _ _
  · exact hforest ▸ reworked_relinked f id _ _

theorem reworked_of_clearParent {change : Change} (h : f.clearParent id = .ok (some change)) :
    f.Reworked change.forest := by
  obtain ⟨-, -, hforest⟩ := clearParent_eq_some h
  exact hforest ▸ reworked_relinked f id _ _

/-- No request gives up a slot. -/
theorem wellFormed_serve (hw : f.nodes.WellFormed) (r : Request) :
    (f.serve r).nodes.WellFormed ∧ f.nodes.Extends (f.serve r).nodes := by
  cases r with
  | create owner => exact ⟨hw.insert _, SlotTable.extends_insert hw _⟩
  | setParent id parent =>
    simp only [serve]
    split
    next change h =>
      have hre := reworked_of_setParent h
      exact ⟨hre.wellFormed hw, hre.extends_nodes⟩
    next => exact ⟨hw, .refl _⟩
  | clearParent id =>
    simp only [serve]
    split
    next change h =>
      have hre := reworked_of_clearParent h
      exact ⟨hre.wellFormed hw, hre.extends_nodes⟩
    next => exact ⟨hw, .refl _⟩
  | release id =>
    simp only [serve, erase]
    split_ifs
    · exact ⟨hw.erase id, SlotTable.extends_erase id⟩
    · exact ⟨hw, .refl _⟩

/-- Requests keep the table of nodes well formed. -/
theorem wellFormed_foldl_serve (hw : f.nodes.WellFormed) (rs : List Request) :
    (rs.foldl serve f).nodes.WellFormed := by
  induction rs generalizing f with
  | nil => exact hw
  | cons r rs ih => exact ih (wellFormed_serve hw r).1

/-- Every request keeps a forest flattened. -/
theorem Flattened.serve (hf : f.Flattened) (hu : f.nodes.Unwrapped) (r : Request) :
    (f.serve r).Flattened := by
  cases r with
  | create owner => exact hf.insert hu owner
  | setParent id parent =>
    simp only [Forest.serve]
    split
    next change h => exact hf.setParent h
    next => exact hf
  | clearParent id =>
    simp only [Forest.serve]
    split
    next change h => exact hf.clearParent h
    next => exact hf
  | release id => exact hf.erase id

/-- Requests keep a forest flattened, as long as no slot has been emptied too often in the end. The
bound is that of the last forest, so the requests are taken from the end. -/
theorem flattened_foldl_serve (hf : f.Flattened) (rs : List Request)
    (hu : (rs.foldl Forest.serve f).nodes.Unwrapped) :
    (rs.foldl Forest.serve f).Flattened := by
  induction rs using List.reverseRecOn with
  | nil => exact hf
  | append_singleton rs r ih =>
    rw [List.foldl_append, List.foldl_cons, List.foldl_nil] at hu ⊢
    have hw := wellFormed_foldl_serve hf.wellFormed rs
    have hu' := (wellFormed_serve hw r).2.unwrapped hu
    exact (ih hu').serve hu' r

/-! ## What holds of every forest -/

/-- In every forest that requests grow from the empty one : a parent is live, lists its
child once, and its chain is the child's chain without the child; a node without a
parent has no chain, or is alone in it; a listed child that is live has the listing
node as its parent. Chains are duplicate-free lists of live nodes, lead by parent links
from a node without a parent down to their own node, and parent links form no cycle. -/
theorem chains_follow_parents (maxDepth : Nat) (rs : List Request)
    (hu : (rs.foldl serve { maxDepth }).nodes.Unwrapped) {id : NodeId} {n : TypeNode}
    (hn : (rs.foldl serve { maxDepth }).nodes.get? id = some n) :
    let f : Forest := rs.foldl serve { maxDepth }
    (∀ p, n.parent = some p → f.nodes.contains p = true ∧ (f.children p).count id = 1 ∧
        n.ancestors = some (f.chain p ++ [id])) ∧
      (n.parent = none → n.ancestors = none ∨ n.ancestors = some [id]) ∧
      (∀ c ∈ f.children id, f.nodes.contains c = true ∧ f.parent? c = some id) ∧
      (∀ l, n.ancestors = some l → l.Nodup ∧ (∀ x ∈ l, f.nodes.contains x = true) ∧
        l.getLast? = some id ∧ l.IsChain (fun a b => f.parent? b = some a) ∧
        ∃ r, l.head? = some r ∧ f.parent? r = none) ∧
      ¬Relation.TransGen (fun a b => f.parent? a = some b) id id := by
  intro f
  have hf : f.Flattened := flattened_foldl_serve (flattened_empty maxDepth) rs hu
  refine ⟨fun p hp => ?_, hf.unlinked id n hn, fun c hc => ?_, fun l hl => ?_,
    hf.not_transGen_self id⟩
  · have hpar : f.parent? id = some p := by rw [parent?_of_get? hn, hp]
    obtain ⟨m, -, -, ha⟩ := hf.linked id n p hn hp
    exact ⟨hf.contains_of_parent? hpar, hf.count_children hpar, ha⟩
  · obtain ⟨-, -, -, hlive⟩ := mem_children_iff.1 hc
    exact ⟨hlive, hf.parent?_of_mem_children hc⟩
  · obtain rfl : f.chain id = l := by rw [chain_of_get? hn, hl, Option.getD_some]
    obtain ⟨l', hl'⟩ := hf.chain_eq_append id
    exact ⟨hf.nodup_chain id,
      fun x => hf.contains_of_mem_chain (SlotTable.contains_of_get? hn),
      by rw [hl', List.getLast?_concat], hf.isChain_chain id, hf.parent?_head_chain id⟩

/-- A node is released, another one takes its slot and its place, and the forest grows
upwards; the request that would close a cycle is refused. -/
def regrowth : List Request :=
  [.create ⟨0, 0⟩, .create ⟨1, 0⟩, .create ⟨2, 0⟩, .setParent ⟨2, 0⟩ (some ⟨1, 0⟩), .release ⟨2, 0⟩,
    .create ⟨3, 0⟩, .setParent ⟨2, 1⟩ (some ⟨1, 0⟩), .setParent ⟨1, 0⟩ (some ⟨0, 0⟩),
    .setParent ⟨0, 0⟩ (some ⟨2, 1⟩)]

/-- A slot is used again, under a parent that still lists its former node. -/
theorem chains_follow_parents_regrowth :
    (regrowth.foldl serve { maxDepth := 3 }).nodes.Unwrapped ∧
      (regrowth.foldl serve { maxDepth := 3 }).nodes.get? ⟨2, 1⟩ =
        some ⟨⟨3, 0⟩, some ⟨1, 0⟩, some [⟨0, 0⟩, ⟨1, 0⟩, ⟨2, 1⟩], {}⟩ ∧
      ((regrowth.foldl serve { maxDepth := 3 }).children ⟨1, 0⟩).count ⟨2, 1⟩ = 1 := by
  have hu : (regrowth.foldl serve { maxDepth := 3 }).nodes.Unwrapped := by decide +kernel
  have hn : (regrowth.foldl serve { maxDepth := 3 }).nodes.get? ⟨2, 1⟩ =
      some ⟨⟨3, 0⟩, some ⟨1, 0⟩, some [⟨0, 0⟩, ⟨1, 0⟩, ⟨2, 1⟩], {}⟩ := rfl
  exact ⟨hu, hn, ((chains_follow_parents 3 regrowth hu hn).1 ⟨1, 0⟩ rfl).2.1⟩

end Forest

end NameResolution
